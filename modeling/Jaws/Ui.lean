import Jaws.Strconv

/-!
# The elements of a `Request`

`Request.UI` asks a UI object for its tags and, through `newElementLocked`, stores an `Element`
for it when there are any: the element gets the next jid, is appended to `rq.elems`, and is
appended to `rq.tagMap` under its own jid and under each of its tags. `Render` renders, tag after
tag, the elements stored under it; `GetElement` finds an element by the text of its jid.

`tagMap` is a Go map keyed by `interface{}` values; `DecidableEq V` stands for Go's `==` on
them, so tags are comparable values (an unhashable key makes Go panic, which is not modelled).

* `newElementLocked`, `render`, `getElement`: the methods, on `Elements`;
* `runUi`, `storedFrom`: a sequence of `UI` calls, and the elements it stores with their tags;
* **`render_spec`**: `Render` renders, in the order of the tags and then of creation, exactly
  the stored elements registered under one of the tags or having one of them as jid;
* **`getElement_spec`**: the `k`-th `UI` call with tags stores the element with jid `k`, and
  `GetElement` finds the element with the jid `strconv.Atoi` reads, and nothing else.
-/

namespace Jaws

variable {U D V : Type}

/-- A key of `Request.tagMap`: the `Jid` of an element, or a tag of another type. -/
inductive Tag (V : Type)
  | jid (n : Nat)
  | other (v : V)
  deriving DecidableEq

/-- An `Element`: its jid, its UI object and its data. -/
structure Element (U D : Type) where
  jid : Nat
  ui : U
  data : D

/-- The elements of a `Request`: `elems`, and `tagMap`, in which a missing key is a nil slice. -/
structure Elements (U D V : Type) where
  elems : List (Element U D)
  tagMap : Tag V → List (Element U D)

/-- The elements of a pooled `Request`. -/
def Elements.empty : Elements U D V := ⟨[], fun _ => []⟩

/-- A call `rq.UI(ui, data...)` whose `ui.JawsTags(rq)` returns `tags`. -/
structure UiCall (U D V : Type) where
  ui : U
  data : D
  tags : List (Tag V)

/-- The elements the calls `cs` store after `n` stored ones, with the tags each was registered
under: one per call with tags, numbered from `n + 1`. -/
def storedFrom (n : Nat) : List (UiCall U D V) → List (Element U D × List (Tag V))
  | [] => []
  | c :: cs =>
    if 0 < c.tags.length then (⟨n + 1, c.ui, c.data⟩, c.tags) :: storedFrom (n + 1) cs
    else storedFrom n cs

theorem mem_storedFrom {n : Nat} {cs : List (UiCall U D V)} {p : Element U D × List (Tag V)}
    (hp : p ∈ storedFrom n cs) : p.2 ≠ [] := by
  induction cs generalizing n with
  | nil => simp [storedFrom] at hp
  | cons c cs ih =>
    unfold storedFrom at hp
    split_ifs at hp with hc
    · rcases List.mem_cons.1 hp with rfl | hp
      · exact List.ne_nil_of_length_pos hc
      · exact ih hp
    · exact ih hp

variable [DecidableEq V]

/-- `rq.tagMap[tag] = append(rq.tagMap[tag], elem)`. -/
def addTag (tm : Tag V → List (Element U D)) (elem : Element U D) (tag : Tag V) :
    Tag V → List (Element U D) :=
  Function.update tm tag (tm tag ++ [elem])

/-- `rq.newElementLocked(tags, ui, data)`: the elements after, and the element it returns. -/
def newElementLocked (rq : Elements U D V) (tags : List (Tag V)) (ui : U) (data : D) :
    Elements U D V × Option (Element U D) :=
  if 0 < tags.length then
    let elem : Element U D := ⟨rq.elems.length + 1, ui, data⟩
    let tm := addTag rq.tagMap elem (.jid elem.jid)
    ({ elems := rq.elems ++ [elem], tagMap := tags.foldl (fun tm tag => addTag tm elem tag) tm },
      some elem)
  else (rq, none)

/-- The elements `rq.Render(tags)` calls `JawsRender` on, in order. -/
def render (rq : Elements U D V) (tags : List (Tag V)) : List (Element U D) :=
  tags.flatMap rq.tagMap

/-- `rq.GetElement(jid)`. -/
def getElement (rq : Elements U D V) (jid : String) : Option (Element U D) :=
  match atoi jid with
  | some n => if 0 < n ∧ n ≤ rq.elems.length then rq.elems[(n - 1).toNat]? else none
  | none => none

/-- The elements after the calls `cs`. -/
def runUi (rq : Elements U D V) (cs : List (UiCall U D V)) : Elements U D V :=
  cs.foldl (fun rq c => (newElementLocked rq c.tags c.ui c.data).1) rq

/-- The elements a tag holds when the stored elements are `h`: each as many times as the tag
occurs among its jid and its tags. -/
def tagged (h : List (Element U D × List (Tag V))) (t : Tag V) : List (Element U D) :=
  h.flatMap fun p => List.replicate ((Tag.jid p.1.jid :: p.2).count t) p.1

theorem foldl_addTag (elem : Element U D) (tags : List (Tag V)) (tm : Tag V → List (Element U D))
    (t : Tag V) :
    tags.foldl (fun tm tag => addTag tm elem tag) tm t = tm t ++ List.replicate (tags.count t) elem := by
  induction tags generalizing tm with
  | nil => simp
  | cons tag tags ih =>
    rw [List.foldl_cons, ih, List.count_cons]
    by_cases h : t = tag
    · subst h; simp [addTag, List.replicate_succ]
    · simp [addTag, Function.update_noteq h, Ne.symm h]

theorem tagMap_newElementLocked (rq : Elements U D V) {tags : List (Tag V)} (ht : 0 < tags.length)
    (ui : U) (data : D) (t : Tag V) :
    (newElementLocked rq tags ui data).1.tagMap t =
      rq.tagMap t ++ List.replicate ((Tag.jid (rq.elems.length + 1) :: tags).count t)
        ⟨rq.elems.length + 1, ui, data⟩ := by
  simp only [newElementLocked, if_pos ht, foldl_addTag, List.count_cons]
  by_cases h : t = .jid (rq.elems.length + 1)
  · subst h; simp [addTag, List.replicate_add, Nat.add_comm]
  · simp [addTag, Function.update_noteq h, Ne.symm h]

theorem runUi_stored (cs : List (UiCall U D V)) (rq : Elements U D V)
    (h : List (Element U D × List (Tag V))) (he : rq.elems = h.map (·.1))
    (htm : ∀ t, rq.tagMap t = tagged h t) :
    (runUi rq cs).elems = (h ++ storedFrom h.length cs).map (·.1) ∧
      ∀ t, (runUi rq cs).tagMap t = tagged (h ++ storedFrom h.length cs) t := by
  induction cs generalizing rq h with
  | nil => simpa [runUi, storedFrom] using ⟨he, htm⟩
  | cons c cs ih =>
    have hl : rq.elems.length = h.length := by simp [he]
    by_cases hc : 0 < c.tags.length
    · have := ih (newElementLocked rq c.tags c.ui c.data).1
        (h ++ [(⟨h.length + 1, c.ui, c.data⟩, c.tags)])
        (by simp [newElementLocked, hc, he]) (fun t => by
          rw [tagMap_newElementLocked rq hc, htm, hl]; simp [tagged])
      simpa [runUi, storedFrom, hc] using this
    · have := ih rq h he htm
      simpa [runUi, storedFrom, hc, newElementLocked] using this

theorem runUi_empty (cs : List (UiCall U D V)) :
    (runUi Elements.empty cs).elems = (storedFrom 0 cs).map (·.1) ∧
      ∀ t, (runUi Elements.empty cs).tagMap t = tagged (storedFrom 0 cs) t := by
  simpa using runUi_stored cs Elements.empty [] rfl (fun _ => rfl)

/-- **What `Render` renders**, tag after tag and then in the order of creation. -/
theorem render_spec (cs : List (UiCall U D V)) (ts : List (Tag V)) :
    render (runUi Elements.empty cs) ts = ts.flatMap (tagged (storedFrom 0 cs)) ∧
      (∀ e, e ∈ render (runUi Elements.empty cs) ts ↔
        ∃ tags, (e, tags) ∈ storedFrom 0 cs ∧ ∃ t ∈ ts, t ∈ Tag.jid e.jid :: tags) ∧
      (runUi Elements.empty cs).elems = (storedFrom 0 cs).map (·.1) ∧
      ∀ p ∈ storedFrom 0 cs, p.2 ≠ [] := by
  obtain ⟨he, htm⟩ := runUi_empty cs
  have hr : render (runUi Elements.empty cs) ts = ts.flatMap (tagged (storedFrom 0 cs)) := by
    simp only [render]
    exact List.flatMap_congr fun t _ => htm t
  refine ⟨hr, fun e => ?_, he, fun p hp => mem_storedFrom hp⟩
  rw [hr]
  simp only [List.mem_flatMap, tagged, List.mem_replicate, ne_eq, List.count_eq_zero, not_not]
  constructor
  · rintro ⟨t, ht, p, hp, hc, rfl⟩
    exact ⟨p.2, hp, t, ht, hc⟩
  · rintro ⟨tags, hp, t, ht, hc⟩
    exact ⟨t, ht, (e, tags), hp, hc, rfl⟩


omit [DecidableEq V] in
theorem jids_storedFrom (n : Nat) (cs : List (UiCall U D V)) :
    (storedFrom n cs).map (·.1.jid) = List.range' (n + 1) (storedFrom n cs).length := by
  induction cs generalizing n with
  | nil => rfl
  | cons c cs ih =>
    unfold storedFrom
    split_ifs
    · simp [ih, List.range'_succ]
    · exact ih n

omit [DecidableEq V] in
theorem storedFrom_elems (n : Nat) (cs : List (UiCall U D V)) :
    (storedFrom n cs).map (·.1) =
      ((cs.filter fun c => 0 < c.tags.length).enumFrom (n + 1)).map
        fun p => ⟨p.1, p.2.ui, p.2.data⟩ := by
  induction cs generalizing n with
  | nil => rfl
  | cons c cs ih =>
    unfold storedFrom
    by_cases hc : 0 < c.tags.length <;> simp [hc, ih]

theorem find?_jid (l : List (Element U D)) (o : Nat)
    (hl : l.map (·.jid) = List.range' (o + 1) l.length) (n : Int) :
    l.find? (fun e => (e.jid : Int) = n) =
      if o < n ∧ n ≤ o + l.length then l[(n - o - 1).toNat]? else none := by
  induction l generalizing o with
  | nil => simp
  | cons e l ih =>
    simp only [List.map_cons, List.length_cons, List.range'_succ, List.cons.injEq] at hl
    rw [List.length_cons, Nat.cast_succ]
    by_cases h : ((o + 1 : Nat) : Int) = n
    · subst h
      rw [List.find?_cons_of_pos _ (by simp [hl.1]), if_pos (by omega)]
      simp
    · rw [List.find?_cons_of_neg _ (by simpa [hl.1] using h), ih (o + 1) hl.2]
      by_cases h1 : ((o + 1 : Nat) : Int) < n ∧ n ≤ (o + 1 : Nat) + l.length
      · rw [if_pos h1, if_pos (by omega),
          show (n - o - 1).toNat = (n - (o + 1 : Nat) - 1).toNat + 1 by omega,
          List.getElem?_cons_succ]
      · rw [if_neg h1, if_neg (by omega)]

/-- **What `GetElement` finds**: the element created with the jid `strconv.Atoi` reads. -/
theorem getElement_spec (cs : List (UiCall U D V)) :
    (runUi Elements.empty cs).elems =
        ((cs.filter fun c => 0 < c.tags.length).enumFrom 1).map
          (fun p => ⟨p.1, p.2.ui, p.2.data⟩) ∧
      (runUi Elements.empty cs).elems.map (·.jid) =
        List.range' 1 (runUi Elements.empty cs).elems.length ∧
      ∀ s, getElement (runUi Elements.empty cs) s =
        (atoi s).bind fun n => (runUi Elements.empty cs).elems.find? fun e => (e.jid : Int) = n := by
  have hj : (runUi Elements.empty cs).elems.map (·.jid) =
      List.range' 1 (runUi Elements.empty cs).elems.length := by
    simpa [(runUi_empty cs).1, List.map_map, Function.comp_def] using jids_storedFrom 0 cs
  refine ⟨(runUi_empty cs).1.trans (storedFrom_elems 0 cs), hj, fun s => ?_⟩
  rw [getElement]
  cases atoi s with
  | none => rfl
  | some n => simpa [Int.sub_zero] using (find?_jid _ 0 (by simpa using hj) n).symm

end Jaws
