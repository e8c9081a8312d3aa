import Jaws.Process
import Mathlib.Logic.Relation
/-!
# Rendering a value as HTML

`Element.ToHtml` turns a value into HTML by a type switch: a `template.HTML` is used as it is,
a string, a `fmt.Stringer`, a float or an `int` is written as text and escaped by
`html.EscapeString`, any other type panics, and an `*atomic.Value` is rendered as what it holds,
by a recursive call with no bound on the depth. The type switch is read through `view`, as in
`Tags`; the recursion is run on `fuel`, the number of loads it may follow.

* `toHtml`: the method;
* **`toHtml_markup`**: what `ToHtml` returns holds no markup character unless it is the
  `template.HTML` at the end of the chain of loads;
* **`toHtml_returns_iff`**: `ToHtml` returns exactly when the chain of loads from the value
  ends, and an `*atomic.Value` that comes back to itself makes it recurse without end.
-/

namespace Jaws

/-- The case of `ToHtml`'s type switch a value falls in: `atomicValue` with what `Load()`
returns, `stringer` with what `String()` returns, the floats with the text of
`strconv.FormatFloat(v, 'f', -1, 64)` and `strconv.FormatFloat(float64(v), 'f', -1, 32)`, and
`other` with the `%T` of the value. -/
inductive HtmlCase (α : Type) where
  | string (s : String)
  | html (h : String)
  | atomicValue (v : α)
  | stringer (s : String)
  | float64 (text : String)
  | float32 (text : String)
  | int (n : Int)
  | other (typeName : String)

variable {α : Type} (view : α → HtmlCase α)

/-- `Element.ToHtml(val)` with `fuel` loads left: the HTML, or the text of the panic; `none`
when the loads outrun the fuel. -/
def toHtml : Nat → α → Option (Except String String)
  | 0, _ => none
  | fuel + 1, val =>
    match view val with
    | .string s => some (.ok (escapeString s))
    | .html h => some (.ok h)
    | .atomicValue v => toHtml fuel v
    | .stringer s => some (.ok (escapeString s))
    | .float64 text => some (.ok (escapeString text))
    | .float32 text => some (.ok (escapeString text))
    | .int n => some (.ok (escapeString (toString n)))
    | .other typeName =>
      some (.error ("jaws: don\x27t know how to render " ++ typeName ++ " as template.HTML"))

/-- `v` holds `w`: `v` is an `*atomic.Value` whose `Load()` returns `w`. -/
def Loads (v w : α) : Prop := view v = .atomicValue w

theorem toHtml_of_not_loads {v : α} (hv : ∀ w, ¬Loads view v w) (fuel : Nat) :
    toHtml view (fuel + 1) v ≠ none := by
  unfold Loads at hv
  rw [toHtml]
  cases h : view v <;> simp only [ne_eq, reduceCtorEq, not_false_eq_true]
  exact absurd h (hv _)

theorem toHtml_of_loads {v w : α} (hv : Loads view v w) (fuel : Nat) :
    toHtml view (fuel + 1) v = toHtml view fuel w := by
  rw [toHtml, show view v = _ from hv]

/-! ## The markup `ToHtml` writes -/

/-- **Markup comes only from a `template.HTML`**: every other value `ToHtml` meets is escaped. -/
theorem toHtml_markup : ∀ (fuel : Nat) (v : α) (out : String),
    toHtml view fuel v = some (.ok out) →
      (∃ w, Relation.ReflTransGen (Loads view) v w ∧ view w = .html out) ∨
        ∀ c ∈ out.toList, c ≠ '<' ∧ c ≠ '>' ∧ c ≠ '\x22' ∧ c ≠ '\x27'
  | 0, _, _, h => by cases h
  | fuel + 1, v, out, h => by
    rw [toHtml] at h
    have hesc : ∀ s, escapeString s = out →
        ∀ c ∈ out.toList, c ≠ '<' ∧ c ≠ '>' ∧ c ≠ '\x22' ∧ c ≠ '\x27' := by
      rintro s rfl c hc
      exact not_markup_of_mem_escapeString hc
    cases hv : view v <;> rw [hv] at h
    case atomicValue w =>
      rcases toHtml_markup fuel w out h with ⟨u, hwu, hu⟩ | hout
      · exact .inl ⟨u, .head hv hwu, hu⟩
      · exact .inr hout
    all_goals simp only [Option.some.injEq, Except.ok.injEq, reduceCtorEq] at h
    case html s => exact .inl ⟨v, .refl, h ▸ hv⟩
    all_goals exact .inr (hesc _ h)

theorem toHtml_markup_string :
    toHtml (fun _ : Unit => .string "<b>") 1 () = some (.ok "&lt;b&gt;") ∧
      ((∃ w, Relation.ReflTransGen (Loads fun _ : Unit => .string "<b>") () w ∧
          (HtmlCase.string "<b>" : HtmlCase Unit) = .html "&lt;b&gt;") ∨
        ∀ c ∈ "&lt;b&gt;".toList, c ≠ '<' ∧ c ≠ '>' ∧ c ≠ '\x22' ∧ c ≠ '\x27') :=
  have h : toHtml (fun _ : Unit => .string "<b>") 1 () = some (.ok "&lt;b&gt;") := rfl
  ⟨h, toHtml_markup _ 1 () _ h⟩

/-! ## When `ToHtml` returns -/

/-- The chain of loads from `v` ends: it reaches a value that holds nothing. -/
def LoadsEnd (v : α) : Prop :=
  ∃ w, Relation.ReflTransGen (Loads view) v w ∧ ∀ u, ¬Loads view w u

theorem loadsEnd_of_toHtml : ∀ (fuel : Nat) (v : α), toHtml view fuel v ≠ none →
    LoadsEnd view v
  | 0, _, h => absurd rfl h
  | fuel + 1, v, h => by
    by_cases hv : ∃ w, Loads view v w
    · obtain ⟨w, hw⟩ := hv
      rw [toHtml_of_loads view hw] at h
      obtain ⟨u, hwu, hu⟩ := loadsEnd_of_toHtml fuel w h
      exact ⟨u, .head hw hwu, hu⟩
    · push_neg at hv
      exact ⟨v, .refl, hv⟩

theorem toHtml_of_loadsEnd {v : α} (h : LoadsEnd view v) :
    ∃ fuel, toHtml view fuel v ≠ none := by
  obtain ⟨w, hvw, hw⟩ := h
  induction hvw using Relation.ReflTransGen.head_induction_on with
  | refl => exact ⟨1, toHtml_of_not_loads view hw 0⟩
  | head hv _ ih =>
    obtain ⟨fuel, hf⟩ := ih
    exact ⟨fuel + 1, by rwa [toHtml_of_loads view hv]⟩

theorem not_loadsEnd_of_cycle {v : α} (hc : Relation.TransGen (Loads view) v v) :
    ¬LoadsEnd view v := by
  have hcycle : ∀ w, Relation.ReflTransGen (Loads view) v w →
      Relation.TransGen (Loads view) w w := by
    intro w hvw
    induction hvw with
    | refl => exact hc
    | tail _ hbc ih =>
      obtain ⟨b', hb', hb'b⟩ := Relation.TransGen.head'_iff.1 ih
      obtain rfl : b' = _ := HtmlCase.atomicValue.inj (Eq.trans (Eq.symm hb') hbc)
      exact Relation.TransGen.tail' hb'b hb'
  rintro ⟨w, hvw, hw⟩
  obtain ⟨u, hu, -⟩ := Relation.TransGen.head'_iff.1 (hcycle w hvw)
  exact hw u hu

/-- **`ToHtml` returns exactly when the chain of loads ends**, and never on a cycle of loads. -/
theorem toHtml_returns_iff (v : α) :
    ((∃ fuel, toHtml view fuel v ≠ none) ↔ LoadsEnd view v) ∧
      (Relation.TransGen (Loads view) v v → ∀ fuel, toHtml view fuel v = none) :=
  ⟨⟨fun ⟨fuel, h⟩ => loadsEnd_of_toHtml view fuel v h, toHtml_of_loadsEnd view⟩,
    fun hc fuel => not_ne_iff.1 fun h =>
      not_loadsEnd_of_cycle view hc (loadsEnd_of_toHtml view fuel v h)⟩

end Jaws
