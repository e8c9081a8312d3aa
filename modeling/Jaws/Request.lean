import Mathlib.Data.List.AList
import Mathlib.Data.Set.Finite.Basic

/-!
# The registry of a `Request`

`Request.elems` maps each jid the page registered to its event function, which may be nil.
`RegisterEventFn` adds a jid, generating one with `MakeID` for an empty argument and keeping an
existing function when it is given nil; `SetEventFn` and `OnEvent` replace the function;
`GetEventFn` also reports the reserved `metaIds` as registered; `recycle` empties the map before
the `Request` goes back to its pool.

* `registerEventFn`, `register`, `setEventFn`, `onEvent`, `getEventFn`, `recycle`: the methods,
  on `Registry`, with `MakeID` given by an `IdSource`;
* `Op`, `run`: a sequence of registering calls from a pooled `Request`, each with the `Call` it
  made;
* `lastHandler`: which function the calls on one jid leave, as the documentation says;
* **`registry_spec`**: `GetEventFn` answers as `lastHandler` says, a generated jid is new, a nil
  registration never erases a function, and `recycle` leaves only the meta ids.
-/

namespace Jaws

/-- `MakeID`, which is not part of this source: its `n`th call returns `makeID n`, and no two
calls return the same jid. -/
structure IdSource where
  makeID : Nat → String
  injective : Function.Injective makeID

variable {F : Type}

/-- The registry of a `Request`: `elems`, each jid with its event function (`none` is a nil
`EventFn`), and the number of `MakeID` calls made so far. -/
structure Registry (F : Type) where
  elems : AList (fun _ : String => Option F)
  made : Nat

/-- `metaIds`. -/
def metaIds : List String := [" reload", " ping", " redirect", " alert"]

theorem exists_fresh (ids : IdSource) (n : Nat) (s : AList (fun _ : String => Option F)) :
    ∃ k, ids.makeID (n + k) ∉ s := by
  have hinf := Set.infinite_range_of_injective
    (ids.injective.comp (add_right_injective n) : Function.Injective fun k => ids.makeID (n + k))
  obtain ⟨_, ⟨k, rfl⟩, hk⟩ := hinf.exists_not_mem_finite (List.finite_toSet s.keys)
  exact ⟨k, fun h => hk (AList.mem_keys.1 h)⟩

/-- How many calls of `MakeID` the loop of `RegisterEventFn` makes, less one: the first that
returns a jid not in `elems`. -/
def freshIndex (ids : IdSource) (n : Nat) (s : AList (fun _ : String => Option F)) : Nat :=
  Nat.find (exists_fresh ids n s)

theorem makeID_fresh (ids : IdSource) (n : Nat) (s : AList (fun _ : String => Option F)) :
    ids.makeID (n + freshIndex ids n s) ∉ s :=
  Nat.find_spec (exists_fresh ids n s)

/-! ## The methods -/

/-- `rq.RegisterEventFn(jid, fn)`: the registry after the call, and the jid it returns. -/
def registerEventFn (ids : IdSource) (rq : Registry F) (jid : String) (fn : Option F) :
    Registry F × String :=
  if jid ≠ "" then
    if (rq.elems.lookup jid).isSome && fn.isNone then (rq, jid)
    else ({ rq with elems := rq.elems.insert jid fn }, jid)
  else
    let k := freshIndex ids rq.made rq.elems
    let jid := ids.makeID (rq.made + k)
    ({ elems := rq.elems.insert jid fn, made := rq.made + k + 1 }, jid)

/-- `rq.Register(jid)`. -/
def register (ids : IdSource) (rq : Registry F) (jid : String) : Registry F × String :=
  registerEventFn ids rq jid none

/-- `rq.GetEventFn(jid)`. -/
def getEventFn (rq : Registry F) (jid : String) : Option F × Bool :=
  match rq.elems.lookup jid with
  | some fn => (fn, true)
  | none => (none, jid ∈ metaIds)

/-- `rq.SetEventFn(jid, fn)`. -/
def setEventFn (rq : Registry F) (jid : String) (fn : Option F) : Registry F :=
  { rq with elems := rq.elems.insert jid fn }

/-- `rq.OnEvent(jid, fn)`, whose error is always nil. -/
def onEvent (rq : Registry F) (jid : String) (fn : Option F) : Registry F :=
  setEventFn rq jid fn

/-- The registry after `rq.recycle()`. -/
def recycle (rq : Registry F) : Registry F := { rq with elems := ∅ }

theorem lookup_registerEventFn (ids : IdSource) (rq : Registry F) (jid : String) (fn : Option F)
    (j : String) :
    (registerEventFn ids rq jid fn).1.elems.lookup j =
      if (registerEventFn ids rq jid fn).2 = j ∧ (fn.isSome || (rq.elems.lookup j).isNone) then
        some fn
      else rq.elems.lookup j := by
  unfold registerEventFn
  by_cases h1 : jid = ""
  · simp only [h1, ne_eq, not_true_eq_false, if_false]
    have hg := AList.lookup_eq_none.2 (makeID_fresh ids rq.made rq.elems)
    by_cases hj : ids.makeID (rq.made + freshIndex ids rq.made rq.elems) = j
    · subst hj; simp [hg]
    · simp [hj, AList.lookup_insert_ne (Ne.symm hj)]
  · simp only [ne_eq, h1, not_false_eq_true, if_true]
    by_cases hj : jid = j
    · subst hj
      cases fn <;> cases h : rq.elems.lookup jid <;> simp [h]
    · split_ifs <;> simp_all [AList.lookup_insert_ne (Ne.symm hj)]

/-! ## Runs of registering calls -/

/-- A registering call a page can make. -/
inductive Op (F : Type)
  | registerEventFn (jid : String) (fn : Option F)
  | register (jid : String)
  | setEventFn (jid : String) (fn : Option F)
  | onEvent (jid : String) (fn : Option F)

/-- A call as it acted: the jid it registered, the function it passed, whether it replaces an
existing function (`SetEventFn`, `OnEvent`, and `RegisterEventFn` with a non-nil function), and
whether the jid was generated. -/
structure Call (F : Type) where
  jid : String
  fn : Option F
  overrides : Bool
  generated : Bool

/-- Make the call `op`: the registry after it, and the call as it acted. -/
def Op.apply (ids : IdSource) (rq : Registry F) : Op F → Registry F × Call F
  | .registerEventFn jid fn =>
    let (rq', j) := Jaws.registerEventFn ids rq jid fn
    (rq', ⟨j, fn, fn.isSome, jid = ""⟩)
  | .register jid =>
    let (rq', j) := Jaws.register ids rq jid
    (rq', ⟨j, none, false, jid = ""⟩)
  | .setEventFn jid fn => (Jaws.setEventFn rq jid fn, ⟨jid, fn, true, false⟩)
  | .onEvent jid fn => (Jaws.onEvent rq jid fn, ⟨jid, fn, true, false⟩)

/-- Make the calls `ops` one after another: the registry after them, and the calls as they
acted. -/
def run (ids : IdSource) : Registry F → List (Op F) → Registry F × List (Call F)
  | rq, [] => (rq, [])
  | rq, op :: ops => ((run ids (op.apply ids rq).1 ops).1, (op.apply ids rq).2 :: (run ids (op.apply ids rq).1 ops).2)

/-- What the calls `cs` on one jid do to its entry, from `v`: a call sets the function it passes
when it replaces one or when the jid has none. -/
def settle (v : Option (Option F)) : List (Call F) → Option (Option F)
  | [] => v
  | c :: cs => settle (if c.overrides || v.isNone then some c.fn else v) cs

/-- The function the calls `cs` on one jid leave registered, as the documentation of the
methods has it: that of the last call that replaces a function, else that of the first call;
`none` when no call registered the jid. -/
def lastHandler : List (Call F) → Option (Option F)
  | [] => none
  | c :: cs => some (((cs.filter (·.overrides)).getLast?.map (·.fn)).getD c.fn)

theorem lookup_apply (ids : IdSource) (rq : Registry F) (op : Op F) (j : String) :
    (op.apply ids rq).1.elems.lookup j =
      if (op.apply ids rq).2.jid = j then
        (if (op.apply ids rq).2.overrides || (rq.elems.lookup j).isNone then some (op.apply ids rq).2.fn
          else rq.elems.lookup j)
      else rq.elems.lookup j := by
  cases op with
  | registerEventFn jid fn =>
    simp only [Op.apply, lookup_registerEventFn]
    split_ifs <;> simp_all [Option.isSome_iff_ne_none]
  | register jid =>
    simp only [Op.apply, register, lookup_registerEventFn]
    split_ifs <;> simp_all
  | setEventFn jid fn =>
    by_cases h : jid = j
    · subst h; simp [Op.apply, setEventFn]
    · simp [Op.apply, setEventFn, h, AList.lookup_insert_ne (Ne.symm h)]
  | onEvent jid fn =>
    by_cases h : jid = j
    · subst h; simp [Op.apply, onEvent, setEventFn]
    · simp [Op.apply, onEvent, setEventFn, h, AList.lookup_insert_ne (Ne.symm h)]

theorem lookup_run (ids : IdSource) (rq : Registry F) (ops : List (Op F)) (j : String) :
    (run ids rq ops).1.elems.lookup j =
      settle (rq.elems.lookup j) ((run ids rq ops).2.filter (·.jid = j)) := by
  induction ops generalizing rq with
  | nil => rfl
  | cons op ops ih =>
    simp only [run, ih, lookup_apply, List.filter_cons]
    split_ifs with h <;> simp_all [settle]

theorem settle_some (v : Option F) (cs : List (Call F)) :
    settle (some v) cs = some (((cs.filter (·.overrides)).getLast?.map (·.fn)).getD v) := by
  induction cs generalizing v with
  | nil => rfl
  | cons c cs ih =>
    by_cases h : c.overrides <;> simp [settle, h, ih, List.filter_cons, List.getLast?_cons]

theorem settle_none (cs : List (Call F)) : settle none cs = lastHandler cs := by
  cases cs with
  | nil => rfl
  | cons c cs => simp [settle, lastHandler, settle_some]

theorem mem_run_keys (ids : IdSource) (rq : Registry F) (ops : List (Op F)) (j : String) :
    j ∈ (run ids rq ops).1.elems ↔ j ∈ rq.elems ∨ j ∈ (run ids rq ops).2.map (·.jid) := by
  rw [← AList.lookup_isSome, ← AList.lookup_isSome, lookup_run]
  generalize rq.elems.lookup j = v
  induction (run ids rq ops).2 generalizing v with
  | nil => simp [settle]
  | cons c cs ih =>
    by_cases h : c.jid = j
    · simp only [List.filter_cons, h, decide_True, if_true, settle]
      split_ifs <;> simp_all [Option.isSome_iff_ne_none]
    · simp [List.filter_cons, h, ih, Ne.symm h]

theorem mem_apply (ids : IdSource) (rq : Registry F) (op : Op F) :
    (op.apply ids rq).2.jid ∈ (op.apply ids rq).1.elems ∧
      ∀ j ∈ rq.elems, j ∈ (op.apply ids rq).1.elems := by
  simp only [← AList.lookup_isSome, lookup_apply]
  refine ⟨?_, fun j hj => ?_⟩
  · rw [if_pos trivial]; split_ifs <;> simp_all [Option.isSome_iff_ne_none]
  · split_ifs <;> simp_all

theorem jid_apply_not_mem (ids : IdSource) (rq : Registry F) {op : Op F}
    (hg : (op.apply ids rq).2.generated) : (op.apply ids rq).2.jid ∉ rq.elems := by
  cases op with
  | registerEventFn jid fn =>
    simp only [Op.apply, decide_eq_true_eq] at hg ⊢
    simp only [registerEventFn, hg, ne_eq, not_true_eq_false, if_false]
    exact makeID_fresh ids _ _
  | register jid =>
    simp only [Op.apply, decide_eq_true_eq] at hg ⊢
    simp only [register, registerEventFn, hg, ne_eq, not_true_eq_false, if_false]
    exact makeID_fresh ids _ _
  | setEventFn jid fn => simp [Op.apply] at hg
  | onEvent jid fn => simp [Op.apply] at hg

theorem generated_fresh (ids : IdSource) (rq : Registry F) (ops : List (Op F)) :
    ∀ pre c post, (run ids rq ops).2 = pre ++ c :: post → c.generated →
      c.jid ∉ rq.elems ∧ c.jid ∉ pre.map (·.jid) := by
  induction ops generalizing rq with
  | nil => intro pre c post h; simp [run] at h
  | cons op ops ih =>
    intro pre c post h hg
    cases pre with
    | nil =>
      obtain ⟨rfl, -⟩ := List.cons.inj h
      exact ⟨jid_apply_not_mem ids rq hg, List.not_mem_nil _⟩
    | cons c0 pre =>
      obtain ⟨rfl, hrun⟩ := List.cons.inj h
      obtain ⟨h1, h2⟩ := ih _ pre c post hrun hg
      have hmem := mem_apply ids rq op
      refine ⟨fun h => h1 (hmem.2 _ h), ?_⟩
      simp only [List.map_cons, List.mem_cons, not_or]
      exact ⟨fun h => h1 (h ▸ hmem.1), h2⟩

theorem getEventFn_registerEventFn_nil (ids : IdSource) (rq : Registry F) (jid j : String) {f : F}
    (h : (getEventFn rq j).1 = some f) :
    (getEventFn (registerEventFn ids rq jid none).1 j).1 = some f := by
  have hl : rq.elems.lookup j = some (some f) := by
    unfold getEventFn at h; split at h <;> simp_all
  unfold getEventFn
  rw [lookup_registerEventFn, if_neg (by simp [hl]), hl]

theorem getEventFn_recycle (rq : Registry F) (j : String) :
    getEventFn (recycle rq) j = (none, decide (j ∈ metaIds)) := by
  simp [getEventFn, recycle]

/-- **The registry of a `Request`**: `GetEventFn` answers as the calls on each jid leave it. -/
theorem registry_spec (ids : IdSource) (made : Nat) (ops : List (Op F)) :
    (∀ j, getEventFn (run ids ⟨∅, made⟩ ops).1 j =
      match lastHandler ((run ids ⟨∅, made⟩ ops).2.filter (·.jid = j)) with
      | some fn => (fn, true)
      | none => (none, decide (j ∈ metaIds))) ∧
    (∀ j, (getEventFn (run ids ⟨∅, made⟩ ops).1 j).2 = true ↔
      j ∈ (run ids ⟨∅, made⟩ ops).2.map (·.jid) ∨ j ∈ metaIds) ∧
    (∀ pre c post, (run ids ⟨∅, made⟩ ops).2 = pre ++ c :: post → c.generated →
      c.jid ∉ pre.map (·.jid)) ∧
    (∀ (rq : Registry F) (jid j : String) (f : F), (getEventFn rq j).1 = some f →
      (getEventFn (registerEventFn ids rq jid none).1 j).1 = some f) ∧
    (∀ (rq : Registry F) (j : String), getEventFn (recycle rq) j = (none, decide (j ∈ metaIds))) := by
  have hlookup : ∀ j, (run ids ⟨∅, made⟩ ops).1.elems.lookup j =
      lastHandler ((run ids ⟨∅, made⟩ ops).2.filter (·.jid = j)) := fun j => by
    rw [lookup_run, AList.lookup_empty, settle_none]
  refine ⟨fun j => by rw [getEventFn, hlookup], fun j => ?_,
    fun pre c post h hg => (generated_fresh ids _ ops pre c post h hg).2,
    fun rq jid j f => getEventFn_registerEventFn_nil ids rq jid j, getEventFn_recycle⟩
  have hk := mem_run_keys ids ⟨∅, made⟩ ops j
  simp only [AList.not_mem_empty, false_or] at hk
  rw [← hk, ← AList.lookup_isSome]
  unfold getEventFn
  split <;> simp_all

end Jaws
