import Mathlib.Data.List.Basic
/-!
# Tag expansion

`tagExpand` (uiinputselect.go) flattens a tag value into the list of tags it stands for, going
by a type switch: the scalar and string kinds are illegal, `nil` gives nothing, a `[]Tag` gives
its tags, a `TagGetter` gives what its `JawsGetTag` returns (expanded again when it differs from
the getter), a `[]interface{}` gives its elements expanded one after another, and any other value
gives itself. It carries the result so far as an accumulator, counts the nesting in `l`, and
stops with `ErrTooManyTags` when `l > 10` or the result so far has more than 100 tags.

The type switch is read through `view`, which tells the case a value falls in (the first
matching case of the switch), and `DecidableEq α` stands for Go's `==` on tag values, which the
getter case uses: tags are comparable values, and the panic of `==` on an uncomparable getter is
not modelled. Exported functions keep Go's capital, since `TagExpand` and `tagExpand` are both
in the source.

* `tagExpand`, `TagExpand`, `MustTagExpand`: the code;
* `flatten`: what a tag expands to, as plain recursion over `d` levels: each element of a list
  expanded on its own and the outputs joined, no accumulator and no bound on the size;
* **`tagExpand_refines`**: every answer of `tagExpand` at level `l` other than
  `ErrTooManyTags` is the answer of `flatten` with `11 - l` levels, and `tagExpand` returns the
  flattening whenever it exists and the result stays within 100 tags;
* **`tagExpand_cyclic`**: a tag that contains itself, through any chain of list elements and
  getters, never expands: the depth bound turns the endless expansion into an error.
-/

namespace Jaws

/-- The two errors of tag expansion, `ErrTooManyTags` and `ErrIllegalTagType`. -/
inductive TagErr where
  | tooManyTags
  | illegalTagType
  deriving DecidableEq, Repr

/-- The case of `tagExpand`'s type switch a tag value falls in: `illegal` for `string`,
`template.HTML`, the integer, float and `bool` kinds, `error`, `[]string` and
`[]template.HTML`; `nil`; `tags` for a `[]Tag`; `getter` for a `TagGetter`, with what its
`JawsGetTag(rq)` returns; `list` for a `[]interface{}`; `other` for the default case. -/
inductive TagCase (α : Type) where
  | illegal
  | nil
  | tags (ts : List α)
  | getter (newTag : α)
  | list (vs : List α)
  | other

variable {α β : Type}

/-! ## `mapM` in `Except`, one element at a time -/

section MapM

variable {g : α → Except TagErr β} {v : α}

theorem mapM_cons_of_ok {out : β} (vs : List α) (h : g v = .ok out) :
    (v :: vs).mapM g = (out :: ·) <$> vs.mapM g := by
  simp only [List.mapM_cons, h]
  cases vs.mapM g <;> rfl

theorem mapM_cons_of_error {e : TagErr} (vs : List α) (h : g v = .error e) :
    (v :: vs).mapM g = .error e := by
  simp only [List.mapM_cons, h]
  rfl

theorem mapM_cons_eq_ok {vs : List α} {outs : List β} :
    (v :: vs).mapM g = .ok outs ↔
      ∃ out outs', g v = .ok out ∧ vs.mapM g = .ok outs' ∧ outs = out :: outs' := by
  simp only [List.mapM_cons]
  cases g v <;> cases vs.mapM g <;> simp [bind, Except.bind, pure, Except.pure, eq_comm]

theorem mapM_ok_of_mem : ∀ {vs : List α} {outs : List β}, vs.mapM g = .ok outs → v ∈ vs →
    ∃ out, g v = .ok out
  | _ :: _, _, h, hv => by
    obtain ⟨out, outs', hg, hgs, -⟩ := mapM_cons_eq_ok.1 h
    rcases List.mem_cons.1 hv with rfl | hv
    · exact ⟨out, hg⟩
    · exact mapM_ok_of_mem hgs hv

end MapM

variable [DecidableEq α] (view : α → TagCase α)

/-- The loop of the `[]interface{}` case: each element is expanded onto the result, and the
first error breaks the loop with the result as it then is. -/
def expandEach (f : α → List α → List α × Option TagErr) :
    List α → List α → List α × Option TagErr
  | [], result => (result, none)
  | v :: vs, result =>
    match f v result with
    | (result, none) => expandEach f vs result
    | (result, some err) => (result, some err)

/-- `tagExpand(l, rq, tag, result)`. -/
def tagExpand (l : Nat) (tag : α) (result : List α) : List α × Option TagErr :=
  if _h : 10 < l ∨ 100 < result.length then (result, some .tooManyTags) else
  match view tag with
  | .illegal => (result, some .illegalTagType)
  | .nil => (result, none)
  | .tags ts => (result ++ ts, none)
  | .getter newTag =>
    if tag ≠ newTag then tagExpand (l + 1) newTag result else (result ++ [tag], none)
  | .list vs => expandEach (fun v r => tagExpand (l + 1) v r) vs result
  | .other => (result ++ [tag], none)
termination_by 11 - l

/-- `TagExpand(rq, tag)`. -/
def TagExpand (tag : α) : List α × Option TagErr := tagExpand view 0 tag []

/-- `MustTagExpand(rq, tag)`: the expansion, or a panic with the error. -/
def MustTagExpand (tag : α) : Except TagErr (List α) :=
  match TagExpand view tag with
  | (result, none) => .ok result
  | (_, some err) => .error err

/-- What a tag expands to with `d` levels of nesting left, read as plain recursion. -/
def flatten : Nat → α → Except TagErr (List α)
  | 0, _ => .error .tooManyTags
  | d + 1, tag =>
    match view tag with
    | .illegal => .error .illegalTagType
    | .nil => .ok []
    | .tags ts => .ok ts
    | .getter newTag => if tag ≠ newTag then flatten d newTag else .ok [tag]
    | .list vs => List.flatten <$> vs.mapM (flatten d)
    | .other => .ok [tag]

/-! ## One call of `tagExpand` -/

theorem tagExpand_of_limit {l : Nat} {result : List α} (h : 10 < l ∨ 100 < result.length)
    (tag : α) : tagExpand view l tag result = (result, some .tooManyTags) := by
  rw [tagExpand, dif_pos h]

theorem tagExpand_of_within {l : Nat} {result : List α} (hl : l ≤ 10)
    (hr : result.length ≤ 100) (tag : α) :
    tagExpand view l tag result =
      match view tag with
      | .illegal => (result, some .illegalTagType)
      | .nil => (result, none)
      | .tags ts => (result ++ ts, none)
      | .getter newTag =>
        if tag ≠ newTag then tagExpand view (l + 1) newTag result else (result ++ [tag], none)
      | .list vs => expandEach (fun v r => tagExpand view (l + 1) v r) vs result
      | .other => (result ++ [tag], none) := by
  rw [tagExpand, dif_neg (by omega)]

/-! ## The loop against `mapM` -/

/-- An answer `res` of an expansion onto `acc` agrees with the plain answer `s`: the same tags
after `acc` on success, the same error when a tag is illegal. `ErrTooManyTags` is not compared:
the bound on the size has no counterpart in `flatten`. -/
def Agrees (acc : List α) : List α × Option TagErr → Except TagErr (List α) → Prop
  | (r, none), s => ∃ out, s = .ok out ∧ r = acc ++ out
  | (_, some .illegalTagType), s => s = .error .illegalTagType
  | (_, some .tooManyTags), _ => True

omit [DecidableEq α] in
theorem Agrees.append {acc out : List α} {res : List α × Option TagErr}
    {s : Except TagErr (List α)} (h : Agrees (acc ++ out) res s) :
    Agrees acc res ((out ++ ·) <$> s) := by
  match res, h with
  | (_, none), ⟨out', hs, hr⟩ => exact ⟨out ++ out', by rw [hs]; rfl, by simp [hr]⟩
  | (_, some .illegalTagType), hs => rw [hs]; rfl
  | (_, some .tooManyTags), _ => trivial

section Loop

variable {f : α → List α → List α × Option TagErr} {g : α → Except TagErr (List α)}

omit [DecidableEq α] in
theorem expandEach_agrees (hf : ∀ v acc, Agrees acc (f v acc) (g v)) :
    ∀ (vs acc : List α), Agrees acc (expandEach f vs acc) (List.flatten <$> vs.mapM g)
  | [], acc => ⟨[], rfl, (List.append_nil acc).symm⟩
  | v :: vs, acc => by
    have hv := hf v acc
    rcases h : f v acc with ⟨r, _ | _ | _⟩ <;> rw [h] at hv <;> simp only [expandEach, h]
    · obtain ⟨out, hg, rfl⟩ := hv
      have hmap : ∀ x : Except TagErr (List (List α)),
          List.flatten <$> (out :: ·) <$> x = (out ++ ·) <$> List.flatten <$> x := by
        intro x; cases x <;> rfl
      rw [mapM_cons_of_ok vs hg, hmap]
      exact (expandEach_agrees hf vs (acc ++ out)).append
    · trivial
    · rw [mapM_cons_of_error vs hv]
      rfl

omit [DecidableEq α] in
theorem expandEach_complete
    (hf : ∀ v acc out, g v = .ok out → acc.length + out.length ≤ 100 →
      f v acc = (acc ++ out, none)) :
    ∀ (vs acc : List α) (outs : List (List α)), vs.mapM g = .ok outs →
      acc.length + outs.flatten.length ≤ 100 → expandEach f vs acc = (acc ++ outs.flatten, none)
  | [], acc, outs, h, _ => by
    cases h
    simp [expandEach]
  | v :: vs, acc, outs, h, hl => by
    obtain ⟨out, outs', hg, hgs, rfl⟩ := mapM_cons_eq_ok.1 h
    simp only [List.flatten_cons, List.length_append] at hl
    simp only [expandEach, hf v acc out hg (by omega)]
    rw [expandEach_complete hf vs _ outs' hgs (by simp only [List.length_append]; omega)]
    simp

end Loop

/-! ## `tagExpand` refines `flatten` -/

theorem tagExpand_agrees : ∀ (d l : Nat) (tag : α) (acc : List α), 11 - l = d →
    Agrees acc (tagExpand view l tag acc) (flatten view d tag)
  | 0, l, tag, acc, hd => by
    rw [tagExpand_of_limit view (by omega)]
    trivial
  | d + 1, l, tag, acc, hd => by
    by_cases hr : 100 < acc.length
    · rw [tagExpand_of_limit view (Or.inr hr)]
      trivial
    rw [tagExpand_of_within view (by omega) (by omega), flatten]
    cases view tag with
    | illegal => rfl
    | nil => exact ⟨[], rfl, (List.append_nil acc).symm⟩
    | tags ts => exact ⟨ts, rfl, rfl⟩
    | getter newTag =>
      dsimp only
      split_ifs
      · exact tagExpand_agrees d (l + 1) newTag acc (by omega)
      · exact ⟨[tag], rfl, rfl⟩
    | list vs =>
      exact expandEach_agrees (fun v acc => tagExpand_agrees d (l + 1) v acc (by omega)) vs acc
    | other => exact ⟨[tag], rfl, rfl⟩

theorem tagExpand_complete : ∀ (d l : Nat) (tag : α) (acc out : List α), 11 - l = d →
    flatten view d tag = .ok out → acc.length + out.length ≤ 100 →
    tagExpand view l tag acc = (acc ++ out, none)
  | 0, _, _, _, _, _, h, _ => by cases h
  | d + 1, l, tag, acc, out, hd, h, hl => by
    rw [tagExpand_of_within view (by omega) (by omega)]
    rw [flatten] at h
    revert h
    cases view tag with
    | illegal => intro h; cases h
    | nil => intro h; cases h; simp
    | tags ts => intro h; cases h; rfl
    | getter newTag =>
      intro h
      dsimp only at h ⊢
      split_ifs at h ⊢
      · exact tagExpand_complete d (l + 1) newTag acc out (by omega) h hl
      · cases h
        rfl
    | list vs =>
      intro h
      dsimp only at h ⊢
      cases hm : vs.mapM (flatten view d) <;> rw [hm] at h <;> cases h
      exact expandEach_complete
        (fun v acc out h hl => tagExpand_complete d (l + 1) v acc out (by omega) h hl) vs acc _
        hm hl
    | other => intro h; cases h; rfl

/-- **`tagExpand` refines `flatten`**: the accumulator, the early break and the size bound change
nothing but the extra `ErrTooManyTags`. -/
theorem tagExpand_refines (l : Nat) (tag : α) (result : List α) :
    (∀ r, tagExpand view l tag result = (r, none) →
      ∃ out, flatten view (11 - l) tag = .ok out ∧ r = result ++ out) ∧
    (∀ r, tagExpand view l tag result = (r, some .illegalTagType) →
      flatten view (11 - l) tag = .error .illegalTagType) ∧
    (∀ out, flatten view (11 - l) tag = .ok out → result.length + out.length ≤ 100 →
      tagExpand view l tag result = (result ++ out, none)) := by
  have h := tagExpand_agrees view _ l tag result rfl
  exact ⟨fun r hr => (hr ▸ h :), fun r hr => (hr ▸ h :),
    fun out => tagExpand_complete view _ l tag result out rfl⟩

/-- The values of `TestTagExpand_TooManyTagsPanic` and `TestTagExpand` as numbers: `0` is the
`[]interface{}` that holds itself, `1` a `[]interface{}` of `nil` (`2`) and two `Tag`s. -/
def testView : Nat → TagCase Nat
  | 0 => .list [0]
  | 1 => .list [2, 3, 4]
  | 2 => .nil
  | _ => .other

theorem tagExpand_refines_list :
    flatten testView 11 1 = .ok [3, 4] ∧ TagExpand testView 1 = ([3, 4], none) :=
  ⟨rfl, (tagExpand_refines testView 0 1 []).2.2 [3, 4] rfl (by decide)⟩

/-! ## Tags that contain themselves -/

/-- `u` is expanded as part of `t`: an element of `t`'s list, or what `t`'s getter gives when
it differs from `t`. -/
def Nested (t u : α) : Prop :=
  (∃ vs, view t = .list vs ∧ u ∈ vs) ∨ (view t = .getter u ∧ t ≠ u)

theorem flatten_nested {d : Nat} {t u : α} {out : List α} (h : flatten view d t = .ok out)
    (hn : Nested view t u) : ∃ d' < d, ∃ o, flatten view d' u = .ok o := by
  cases d with
  | zero => cases h
  | succ d =>
    rw [flatten] at h
    rcases hn with ⟨vs, hv, hu⟩ | ⟨hv, hne⟩ <;> rw [hv] at h <;> dsimp only at h
    · cases hm : vs.mapM (flatten view d) <;> rw [hm] at h <;> cases h
      exact ⟨d, d.lt_succ_self, mapM_ok_of_mem hm hu⟩
    · rw [if_pos hne] at h
      exact ⟨d, d.lt_succ_self, out, h⟩

theorem flatten_transGen {t u : α} (hn : Relation.TransGen (Nested view) t u) :
    ∀ {d out}, flatten view d t = .ok out → ∃ d' < d, ∃ o, flatten view d' u = .ok o := by
  induction hn with
  | single hn => exact fun h => flatten_nested view h hn
  | tail _ hn ih =>
    intro d out h
    obtain ⟨d₁, h₁, o₁, ho₁⟩ := ih h
    obtain ⟨d₂, h₂, o₂, ho₂⟩ := flatten_nested view ho₁ hn
    exact ⟨d₂, by omega, o₂, ho₂⟩

theorem flatten_of_cycle {t : α} (hc : Relation.TransGen (Nested view) t t) (d : Nat) :
    ∀ out, flatten view d t ≠ .ok out := by
  induction d using Nat.strong_induction_on with
  | _ d ih =>
    intro out h
    obtain ⟨d', hd', o, ho⟩ := flatten_transGen view hc h
    exact ih d' hd' o ho

/-- **A tag that contains itself never expands**: `tagExpand` returns an error for it. -/
theorem tagExpand_cyclic {tag : α} (hc : Relation.TransGen (Nested view) tag tag) (l : Nat)
    (result : List α) : (tagExpand view l tag result).2 ≠ none := by
  intro h
  have hagree := tagExpand_agrees view _ l tag result rfl
  rw [show tagExpand view l tag result = (_, none) from Prod.ext rfl h] at hagree
  obtain ⟨out, hout, -⟩ := hagree
  exact flatten_of_cycle view hc _ out hout

theorem tagExpand_cyclic_self :
    Relation.TransGen (Nested testView) 0 0 ∧ (TagExpand testView 0).2 ≠ none :=
  have hc : Relation.TransGen (Nested testView) 0 0 := .single (.inl ⟨[0], rfl, by simp⟩)
  ⟨hc, tagExpand_cyclic testView hc 0 []⟩

end Jaws
