import Mathlib.Data.List.Basic
/-!
# The parameters and the events of `UiHtml`

`parseParams` (uihtml.go) reads the parameters a widget is rendered with by a type switch. HTML
and string parameters become attributes. An `EventFn` is stored through `ef`, a nil one too. A
non-nil `ClickFn`, `InputTextFn`, `InputBoolFn`, `InputFloatFn` or `InputDateFn` is wrapped into
an `EventFn` that acts on clicks, or on input events, only, and stored through `ef`; a nil one
is skipped. Any other value is added to the element's tags, and stored through `ch` or `eh` when
it is a `ClickHandler` or an `EventHandler`. A nil pointer stores nothing: `Template.JawsRender`
passes three. `UiHtml.JawsEvent` answers an event with the `EventFn` if there is one, else a
click with the `ClickHandler`, else any event with the `EventHandler`, else an input event by
setting the value of `Tag`.

The functions and handlers are opaque values; `Effect` says which one `JawsEvent` calls, with
what.

* `parseParam`, `parseParams`, `UiHtml.parseParams`, `UiHtml.jawsEvent`: the code;
* **`parseParams_spec`**: the attributes and the tags are those of the parameters, in order,
  and each pointer holds what the last parameter that writes it wrote;
* **`clickFn_disables_input`**: when the last parameter that sets the `EventFn` is a
  `ClickFn`, the widget ignores every input event.
-/

namespace Jaws

/-- The user functions `parseParams` wraps into an `EventFn`. -/
inductive FnKind
  | clickFn
  | inputTextFn
  | inputBoolFn
  | inputFloatFn
  | inputDateFn
  deriving DecidableEq

/-- A parameter of `parseParams`, by the case of its type switch: `template.HTML`,
`[]template.HTML`, `string`, `[]string`, an `EventFn`, one of the user functions, each nil or
not, and the default case with the value and whether it is a `ClickHandler` and an
`EventHandler`. -/
inductive Param (F T : Type)
  | html (s : String)
  | htmls (ss : List String)
  | string (s : String)
  | strings (ss : List String)
  | eventFn (f : Option F)
  | fn (k : FnKind) (f : Option F)
  | other (v : T) (clickHandler eventHandler : Bool)

/-- An `EventFn` as `UiHtml` holds it: one given as such, or the wrapper `parseParams` builds
around a user function. -/
inductive EventFnVal (F : Type)
  | legacy (f : F)
  | wrapped (k : FnKind) (f : F)

/-- Which of the pointers `ch`, `eh` and `ef` are not nil. -/
structure Targets where
  ch : Bool
  eh : Bool
  ef : Bool

/-- What `parseParams` writes: the attributes it returns, what the pointers hold, and the tags it
adds to the element. -/
@[ext] structure Parsed (F T : Type) where
  attrs : List String
  clickHandler : Option T
  eventHandler : Option T
  eventFn : Option (EventFnVal F)
  tags : List T

variable {F T W : Type}

/-- One turn of the loop of `parseParams`. -/
def parseParam (tg : Targets) (p : Parsed F T) : Param F T → Parsed F T
  | .html s => { p with attrs := p.attrs ++ [s] }
  | .htmls ss => { p with attrs := p.attrs ++ ss }
  | .string s => { p with attrs := p.attrs ++ [s] }
  | .strings ss => { p with attrs := p.attrs ++ ss }
  | .eventFn f => if tg.ef then { p with eventFn := f.map .legacy } else p
  | .fn k f =>
    match f with
    | some f => if tg.ef then { p with eventFn := some (.wrapped k f) } else p
    | none => p
  | .other v isCh isEh =>
    { p with
      clickHandler := if tg.ch ∧ isCh then some v else p.clickHandler
      eventHandler := if tg.eh ∧ isEh then some v else p.eventHandler
      tags := p.tags ++ [v] }

/-- `parseParams(elem, params, ch, eh, ef)`, from what the pointers held before. -/
def parseParams (tg : Targets) (init : Parsed F T) (params : List (Param F T)) : Parsed F T :=
  params.foldl (parseParam tg) init

/-- A `UiHtml`: its handlers, its `EventFn` and its `Tag` (`none` is nil). -/
structure UiHtml (F T : Type) where
  clickHandler : Option T
  eventHandler : Option T
  eventFn : Option (EventFnVal F)
  tag : Option T

/-- `ui.parseParams(elem, params)`: the `UiHtml` with the handlers stored, the attributes, and
the tags added to the element. -/
def UiHtml.parseParams (ui : UiHtml F T) (params : List (Param F T)) :
    UiHtml F T × List String × List T :=
  let p := Jaws.parseParams ⟨true, true, true⟩
    ⟨[], ui.clickHandler, ui.eventHandler, ui.eventFn, []⟩ params
  ({ ui with clickHandler := p.clickHandler, eventHandler := p.eventHandler, eventFn := p.eventFn },
    p.attrs, p.tags)

/-- What `JawsEvent` does with an event: call an `EventFn` given as such; call a wrapped
`ClickFn`; call a wrapped input function with the value (parsed first when typed); call
`JawsClick` or `JawsEvent` of a handler; set the value of the `Tag` by its setter type and mark
it dirty; or nothing. -/
inductive Effect (F T W : Type)
  | eventFn (f : F) (wht : W) (val : String)
  | clickFn (f : F)
  | inputFn (k : FnKind) (f : F) (val : String)
  | jawsClick (h : T) (val : String)
  | jawsEvent (h : T) (wht : W) (val : String)
  | setTag (tag : Option T) (val : String)
  | nothing

section Events

variable [DecidableEq W] (click input : W)

/-- What an `EventFn` does with an event: one given as such is called; the wrapper of a
`ClickFn` calls it on a click only, that of an input function on an input event only. -/
def EventFnVal.call : EventFnVal F → W → String → Effect F T W
  | .legacy f, wht, val => .eventFn f wht val
  | .wrapped .clickFn f, wht, _ => if wht = click then .clickFn f else .nothing
  | .wrapped k f, wht, val => if wht = input then .inputFn k f val else .nothing

/-- `ui.JawsEvent(e, wht, val)`; `click` and `input` are `what.Click` and `what.Input`. -/
def UiHtml.jawsEvent (ui : UiHtml F T) (wht : W) (val : String) : Effect F T W :=
  match ui.eventFn with
  | some ef => ef.call click input wht val
  | none =>
    match (if wht = click then ui.clickHandler else none), ui.eventHandler with
    | some h, _ => .jawsClick h val
    | none, some h => .jawsEvent h wht val
    | none, none => if wht = input then .setTag ui.tag val else .nothing

end Events

/-! ## `parseParams` in closed form -/

/-- The attributes a parameter gives. -/
def Param.attrs : Param F T → List String
  | .html s | .string s => [s]
  | .htmls ss | .strings ss => ss
  | _ => []

/-- The tag a parameter adds to the element. -/
def Param.tag : Param F T → Option T
  | .other v _ _ => some v
  | _ => none

/-- What a parameter stores through `ef`, if it stores anything. -/
def Param.eventFnSet : Param F T → Option (Option (EventFnVal F))
  | .eventFn f => some (f.map .legacy)
  | .fn k (some f) => some (some (.wrapped k f))
  | _ => none

/-- What a parameter stores through `ch`. -/
def Param.clickHandlerSet : Param F T → Option (Option T)
  | .other v true _ => some (some v)
  | _ => none

/-- What a parameter stores through `eh`. -/
def Param.eventHandlerSet : Param F T → Option (Option T)
  | .other v _ true => some (some v)
  | _ => none

/-- The last of `writes`, or `init` when there is none. -/
def lastWrite {β : Type} (writes : List β) (init : β) : β := writes.getLast?.getD init

theorem lastWrite_filterMap_cons {α β : Type} (f : α → Option β) (p : α) (ps : List α)
    (init : β) :
    lastWrite ((p :: ps).filterMap f) init = lastWrite (ps.filterMap f) ((f p).getD init) := by
  rw [List.filterMap_cons]
  cases f p with
  | none => rfl
  | some b => rw [lastWrite, List.getLast?_cons, Option.getD_some]; rfl

/-- What one parameter does. -/
theorem parseParam_eq (tg : Targets) (p : Parsed F T) (x : Param F T) :
    parseParam tg p x =
      ⟨p.attrs ++ x.attrs,
        if tg.ch then x.clickHandlerSet.getD p.clickHandler else p.clickHandler,
        if tg.eh then x.eventHandlerSet.getD p.eventHandler else p.eventHandler,
        if tg.ef then x.eventFnSet.getD p.eventFn else p.eventFn,
        p.tags ++ x.tag.toList⟩ := by
  obtain ⟨ch, eh, ef⟩ := tg
  cases x with
  | fn k f => cases f <;> cases ef <;> simp [parseParam, Param.attrs, Param.clickHandlerSet,
      Param.eventHandlerSet, Param.eventFnSet, Param.tag]
  | other v c e => cases c <;> cases e <;> cases ch <;> cases eh <;> simp [parseParam,
      Param.attrs, Param.clickHandlerSet, Param.eventHandlerSet, Param.eventFnSet, Param.tag]
  | _ => cases ef <;> simp [parseParam, Param.attrs, Param.clickHandlerSet,
      Param.eventHandlerSet, Param.eventFnSet, Param.tag]

theorem parseParams_cons (tg : Targets) (init : Parsed F T) (x : Param F T)
    (xs : List (Param F T)) :
    parseParams tg init (x :: xs) = parseParams tg (parseParam tg init x) xs :=
  rfl

theorem filterMap_cons_toList {α β : Type} (f : α → Option β) (x : α) (xs : List α) :
    (x :: xs).filterMap f = (f x).toList ++ xs.filterMap f := by
  rw [List.filterMap_cons]
  cases f x <;> rfl

/-- **`parseParams` in closed form**: the attributes and tags in order, and each pointer the last
write. -/
theorem parseParams_spec (tg : Targets) (init : Parsed F T) (params : List (Param F T)) :
    parseParams tg init params =
      ⟨init.attrs ++ params.flatMap Param.attrs,
        if tg.ch then lastWrite (params.filterMap Param.clickHandlerSet) init.clickHandler
        else init.clickHandler,
        if tg.eh then lastWrite (params.filterMap Param.eventHandlerSet) init.eventHandler
        else init.eventHandler,
        if tg.ef then lastWrite (params.filterMap Param.eventFnSet) init.eventFn else init.eventFn,
        init.tags ++ params.filterMap Param.tag⟩ := by
  induction params generalizing init with
  | nil => simp [parseParams, lastWrite]
  | cons x xs ih =>
    rw [parseParams_cons, ih, parseParam_eq, List.flatMap_cons, filterMap_cons_toList Param.tag,
      lastWrite_filterMap_cons, lastWrite_filterMap_cons, lastWrite_filterMap_cons]
    simp only [List.append_assoc]
    split_ifs <;> rfl

/-! ## A `ClickFn` parameter and input events -/

theorem lastWrite_append_of_none {α β : Type} {f : α → Option β} {post : List α}
    (hpost : ∀ x ∈ post, f x = none) (pre : List α) (x : α) {b : β} (hx : f x = some b)
    (init : β) : lastWrite ((pre ++ x :: post).filterMap f) init = b := by
  rw [List.filterMap_append, List.filterMap_cons, hx, List.filterMap_eq_nil_iff.2 hpost]
  simp [lastWrite]

/-- **A `ClickFn` parameter disables the input handling of a widget.** -/
theorem clickFn_disables_input [DecidableEq W] (click input : W) (ui : UiHtml F T)
    (pre post : List (Param F T)) (f : F) (hpost : ∀ x ∈ post, x.eventFnSet = none)
    (hne : click ≠ input) (val : String) :
    (ui.parseParams (pre ++ .fn .clickFn (some f) :: post)).1.jawsEvent click input input val =
      .nothing := by
  have hef : (ui.parseParams (pre ++ .fn .clickFn (some f) :: post)).1.eventFn =
      some (.wrapped .clickFn f) := by
    simp only [UiHtml.parseParams, parseParams_spec, if_true]
    exact lastWrite_append_of_none hpost pre (.fn .clickFn (some f)) rfl _
  simp only [UiHtml.jawsEvent, hef, EventFnVal.call, if_neg (Ne.symm hne)]

theorem clickFn_disables_input_date :
    (∀ x ∈ ([] : List (Param Nat Nat)), x.eventFnSet = none) ∧ true ≠ false ∧
      (UiHtml.parseParams ⟨none, none, none, some 7⟩ [.string "id=d", .fn .clickFn (some 1)]).1.jawsEvent
        true false false "2024-01-01" = (.nothing : Effect Nat Nat Bool) :=
  ⟨by simp, by decide,
    clickFn_disables_input true false ⟨none, none, none, some 7⟩ [.string "id=d"] [] 1 (by simp)
      (by decide) "2024-01-01"⟩

end Jaws
