import Jaws.Request

/-!
# The event loop of a connection

`Request.process` takes one message per turn from `rq.sendCh`, the broadcast subscription or
the WebSocket's `incomingMsgCh`, and either drops it, queues a call of the registered event
function on `eventCallCh`, calls the function at once for a `"hook"` message, or forwards the
message on `outboundMsgCh`. It returns on a done channel, a nil message, or a full channel.

A turn reads the rest of the program at a few points: which channel the `select` takes, the
registry as `GetEventFn` sees it, what a hooked function returns, whether `eventCallCh` has room
and which case the `select` on `outboundMsgCh` takes. A `Tick` holds these answers, and
`processTurn` is the turn as a function of them.

* `processTurn`, `process`: one turn, and the loop over a run of ticks;
* `loopRun`, `loopRun_law`: a loop whose turns each write a list and may stop it, and what a
  run of it writes;
* `expectedYield`, `stopReason`: what a turn yields and where the loop stops, read per message;
* **`process_law`**: on every run where no done channel fires and no message is nil, `process`
  writes exactly the yields of the turns before the first one that stops it, and stops there:
  at a full channel, or at a `"hook"` for a jid whose function is nil;
* **`process_stops_at_nil_hook`**, **`hook_calls_nil_eventFn`**: that last case, where the source
  calls a nil `EventFn` and panics;
* **`event_routes_to_lastHandler`**: an event from the browser, or another `Request`'s trigger,
  queues a call of the function the page's registering calls left on its jid, and nothing else;
* **`makeAlertDangerMessage_text`**: the text of the alert for an error has no markup character
  and reads back as the error's text.
-/

namespace Jaws

variable {F : Type}

/-- `Message`; `fromRq` is the `Request` that broadcast it, if any. -/
structure Message where
  elem : String
  what : String
  data : String
  fromRq : Option Nat
  deriving DecidableEq

/-- The text `html.EscapeString` writes for a character. -/
def escapeChar (c : Char) : List Char :=
  if c = '&' then "&amp;".toList
  else if c = '\x27' then "&#39;".toList
  else if c = '<' then "&lt;".toList
  else if c = '>' then "&gt;".toList
  else if c = '\x22' then "&#34;".toList
  else [c]

/-- `html.EscapeString(s)`. -/
def escapeString (s : String) : String := ⟨s.toList.flatMap escapeChar⟩

/-- `makeAlertDangerMessage(err)`, for the error text `err` (`none` is a nil error). -/
def makeAlertDangerMessage (err : Option String) : Option Message :=
  err.map fun e => ⟨" alert", "danger", escapeString e, none⟩

/-- `eventFnCall`: the function is never nil, as `process` checks before it queues one. -/
structure EventFnCall (F : Type) where
  fn : F
  msg : Message

/-- The channels `process` reads messages from. -/
inductive Src
  | send
  | broadcast
  | incoming
  deriving DecidableEq

/-- The case the first `select` of a turn takes: a done channel, a closed input channel, or a
value, nil or not, from an input channel. -/
inductive Recv
  | jawsDone
  | ctxDone
  | closed (src : Src)
  | value (src : Src) (m : Option Message)

/-- The case the `select` on `outboundMsgCh` takes. -/
inductive OutSel
  | sent
  | done
  | full
  deriving DecidableEq

/-- What the rest of the program answers during one turn. -/
structure Tick (F : Type) where
  recv : Recv
  /-- The registry when `GetEventFn` reads it. -/
  reg : Registry F
  /-- The error a function called for a `"hook"` returns. -/
  hookErr : Option String
  /-- Whether `eventCallCh` has no room. -/
  callFull : Bool
  outSel : OutSel

/-- What a turn writes. -/
inductive Yield (F : Type)
  | skip
  | call (c : EventFnCall F)
  | out (m : Message)

/-- Why `process` leaves its loop. -/
inductive Exit
  | done
  | closed
  | nilMsg
  | callFull
  | outFull
  | panic
  deriving DecidableEq

/-- The end of a turn: go on after writing a yield, or leave the loop. -/
inductive Turn (F : Type)
  | next (y : Yield F)
  | exit (e : Exit)

/-- The `select` on `outboundMsgCh` for a message that is not nil. -/
def sendOut (msg : Message) : OutSel → Turn F
  | .sent => .next (.out msg)
  | .done => .next .skip
  | .full => .exit .outFull

theorem sendOut_of_ne_done {o : OutSel} (h : o ≠ .done) (msg : Message) :
    (sendOut msg o : Turn F) = if o = .full then .exit .outFull else .next (.out msg) := by
  cases o
  · rfl
  · exact absurd rfl h
  · rfl

/-- One turn of the loop of `rq.process`, `self` being `rq`. Calling a nil `EventFn` panics. -/
def processTurn (self : Nat) (t : Tick F) : Turn F :=
  match t.recv with
  | .jawsDone | .ctxDone => .exit .done
  | .closed _ => .exit .closed
  | .value _ none => .exit .nilMsg
  | .value src (some m) =>
    if m.fromRq = some self then .next .skip
    else
      match getEventFn t.reg m.elem with
      | (_, false) => .next .skip
      | (fn, true) =>
        if src = .incoming ∨ m.what = "trigger" then
          match fn with
          | some f => if t.callFull then .exit .callFull else .next (.call ⟨f, m⟩)
          | none => .next .skip
        else if m.what = "hook" then
          match fn with
          | some _ =>
            match makeAlertDangerMessage t.hookErr with
            | some msg => sendOut msg t.outSel
            | none => .next .skip
          | none => .exit .panic
        else sendOut m t.outSel

/-! ## Loops of turns -/

section Loop

variable {τ α ε : Type} (turn : τ → List α × Option ε)

/-- A loop over a run of turns, each of which writes a list and may stop the loop: what it
writes, the turn that stops it included, and why it stopped, if a turn stopped it. -/
def loopRun : List τ → List α × Option ε
  | [] => ([], none)
  | t :: ts =>
    match (turn t).2 with
    | some x => ((turn t).1, some x)
    | none => ((turn t).1 ++ (loopRun ts).1, (loopRun ts).2)

/-- **A run, read per turn**: it writes what the turns write up to the first one that stops it,
and stops there. -/
theorem loopRun_law (ts : List τ) :
    ∃ k ≤ ts.length, (∀ t ∈ ts.take k, (turn t).2 = none) ∧
      (loopRun turn ts).1 = (ts.take (k + 1)).flatMap (fun t => (turn t).1) ∧
      (loopRun turn ts).2 = (ts.drop k).head?.bind (fun t => (turn t).2) ∧
      (k < ts.length → (ts.drop k).head?.bind (fun t => (turn t).2) ≠ none) := by
  induction ts with
  | nil => exact ⟨0, le_refl _, by simp, rfl, rfl, fun h => absurd h (lt_irrefl _)⟩
  | cons t ts ih =>
    cases hs : (turn t).2 with
    | some x =>
      exact ⟨0, by simp, by simp, by simp [loopRun, hs], by simp [loopRun, hs], by simp [hs]⟩
    | none =>
      obtain ⟨k, hk, hstop, h1, h2, h3⟩ := ih
      refine ⟨k + 1, by simpa using hk, ?_, ?_, ?_, fun h => h3 (by simpa using h)⟩
      · simpa [hs] using hstop
      · simp [loopRun, hs, h1]
      · simp [loopRun, hs, h2]

end Loop

/-- What a turn writes, and why it leaves the loop. -/
def Turn.result : Turn F → List (Yield F) × Option Exit
  | .next y => ([y], none)
  | .exit e => ([], some e)

/-- The loop of `rq.process` over a run of ticks: what it writes, and why it left the loop, if
it did before the ticks ran out. -/
def process (self : Nat) : List (Tick F) → List (Yield F) × Option Exit :=
  loopRun fun t => (processTurn self t).result

/-! ## The loop, read per message -/

/-- A turn in which no done channel fires and the message is not nil. -/
def Tick.quiet (t : Tick F) : Prop :=
  (∃ src m, t.recv = .value src (some m)) ∧ t.outSel ≠ .done

/-- What the documentation says the message of a turn yields: nothing for its own broadcast or
an unregistered jid; a call of the registered function, if any, for an incoming or
`"trigger"` message; the danger alert of the function's error for a `"hook"`; else the message
itself on `outboundMsgCh`. -/
def expectedYield (self : Nat) (t : Tick F) : Yield F :=
  match t.recv with
  | .value src (some m) =>
    if m.fromRq = some self then .skip
    else
      match getEventFn t.reg m.elem with
      | (_, false) => .skip
      | (fn, true) =>
        if src = .incoming ∨ m.what = "trigger" then
          match fn with
          | some f => .call ⟨f, m⟩
          | none => .skip
        else if m.what = "hook" then
          match makeAlertDangerMessage t.hookErr with
          | some msg => .out msg
          | none => .skip
        else .out m
  | _ => .skip

/-- Where a turn stops the loop: a yield that finds its channel full, or a `"hook"` for a jid
registered with a nil function. -/
def stopReason (self : Nat) (t : Tick F) : Option Exit :=
  match t.recv with
  | .value src (some m) =>
    if m.fromRq = some self then none
    else
      match getEventFn t.reg m.elem with
      | (_, false) => none
      | (none, true) =>
        if src = .incoming ∨ m.what = "trigger" then none
        else if m.what = "hook" then some .panic
        else if t.outSel = .full then some .outFull else none
      | (some _, true) =>
        match expectedYield self t with
        | .call _ => if t.callFull then some .callFull else none
        | .out _ => if t.outSel = .full then some .outFull else none
        | .skip => none
  | _ => none

theorem processTurn_quiet (self : Nat) {t : Tick F} (ht : t.quiet) :
    processTurn self t = match stopReason self t with
      | some e => .exit e
      | none => .next (expectedYield self t) := by
  obtain ⟨⟨src, m, hr⟩, hd⟩ := ht
  unfold processTurn stopReason expectedYield
  rw [hr]
  dsimp only
  by_cases h1 : m.fromRq = some self
  · simp only [h1, if_true]
  simp only [h1, if_false]
  generalize getEventFn t.reg m.elem = g
  rcases g with ⟨_ | f, _ | _⟩
  · rfl
  · -- a jid registered with a nil function
    by_cases hc : src = .incoming ∨ m.what = "trigger"
    · simp only [if_pos hc]
    by_cases hh : m.what = "hook"
    · simp only [if_neg hc, if_pos hh]
    · simp only [if_neg hc, if_neg hh, sendOut_of_ne_done hd]; split_ifs <;> rfl
  · rfl
  · -- a jid with a function
    by_cases hc : src = .incoming ∨ m.what = "trigger"
    · simp only [if_pos hc]; split_ifs <;> rfl
    by_cases hh : m.what = "hook"
    · simp only [if_neg hc, if_pos hh]
      cases makeAlertDangerMessage t.hookErr with
      | none => rfl
      | some msg => simp only [sendOut_of_ne_done hd]; split_ifs <;> rfl
    · simp only [if_neg hc, if_neg hh, sendOut_of_ne_done hd]; split_ifs <;> rfl

theorem result_processTurn_quiet (self : Nat) {t : Tick F} (ht : t.quiet) :
    (processTurn self t).result.2 = stopReason self t ∧
      (processTurn self t).result.1 =
        if stopReason self t = none then [expectedYield self t] else [] := by
  rw [processTurn_quiet self ht]
  cases stopReason self t <;> simp [Turn.result]

/-- **The loop, read per message**: `process` writes the expected yields up to the first turn
with a stop reason, and stops there. -/
theorem process_law (self : Nat) (ts : List (Tick F)) (hts : ∀ t ∈ ts, t.quiet) :
    ∃ k ≤ ts.length,
      (∀ t ∈ ts.take k, stopReason self t = none) ∧
      (process self ts).1 = (ts.take k).map (expectedYield self) ∧
      (process self ts).2 = (ts.drop k).head?.bind (stopReason self) ∧
      (k < ts.length → (ts.drop k).head?.bind (stopReason self) ≠ none) := by
  have hq := fun t (ht : t ∈ ts) => result_processTurn_quiet self (hts t ht)
  obtain ⟨k, hk, hstop, h1, h2, h3⟩ := loopRun_law (fun t => (processTurn self t).result) ts
  have hnone : ∀ t ∈ ts.take k, stopReason self t = none := fun t ht =>
    (hq t (List.mem_of_mem_take ht)).1 ▸ hstop t ht
  have hbind : (ts.drop k).head?.bind (fun t => (processTurn self t).result.2) =
      (ts.drop k).head?.bind (stopReason self) := by
    rw [List.head?_drop]
    cases h : ts[k]? with
    | none => rfl
    | some t => exact (hq t (List.getElem?_mem h)).1
  refine ⟨k, hk, hnone, ?_, h2.trans hbind, fun hlt => hbind ▸ h3 hlt⟩
  -- the turns before the `k`-th write their yields, and the `k`-th, if any, writes nothing
  rw [process, h1, List.take_succ, List.flatMap_append, List.map_eq_flatMap,
    List.flatMap_congr fun t ht => by rw [(hq t (List.mem_of_mem_take ht)).2, if_pos (hnone t ht)]]
  cases h : ts[k]? with
  | none => simp
  | some t =>
    have hs := h3 (List.getElem?_eq_some_iff.1 h).1
    rw [hbind, List.head?_drop, h, Option.some_bind] at hs
    simp [(hq t (List.getElem?_mem h)).2, hs]

theorem process_law_two_turns :
    let ts : List (Tick Unit) :=
      [⟨.value .incoming (some ⟨"x", "click", "", none⟩), ⟨∅, 0⟩, none, false, .sent⟩,
        ⟨.value .send (some ⟨" alert", "info", "", none⟩), ⟨∅, 0⟩, none, false, .full⟩]
    (∀ t ∈ ts, t.quiet) ∧ ∃ k ≤ ts.length,
      (∀ t ∈ ts.take k, stopReason 0 t = none) ∧
      (process 0 ts).1 = (ts.take k).map (expectedYield 0) ∧
      (process 0 ts).2 = (ts.drop k).head?.bind (stopReason 0) ∧
      (k < ts.length → (ts.drop k).head?.bind (stopReason 0) ≠ none) := by
  intro ts
  have h : ∀ t ∈ ts, t.quiet := by simp [ts, Tick.quiet]
  exact ⟨h, process_law 0 ts h⟩

/-- A `"hook"` for a jid registered with `Register` stops `process` with a panic, and the event
after it is never queued. -/
theorem process_stops_at_nil_hook (ids : IdSource) :
    let reg := (run ids ⟨∅, 0⟩ [.register "x", .setEventFn "y" (some ())]).1
    let hook : Tick Unit := ⟨.value .send (some ⟨"x", "hook", "", none⟩), reg, none, false, .sent⟩
    let click : Tick Unit :=
      ⟨.value .incoming (some ⟨"y", "click", "", none⟩), reg, none, false, .sent⟩
    hook.quiet ∧ click.quiet ∧ expectedYield 0 click = .call ⟨(), ⟨"y", "click", "", none⟩⟩ ∧
      process 0 [hook, click] = ([], some .panic) := by
  refine ⟨⟨⟨_, _, rfl⟩, by simp⟩, ⟨⟨_, _, rfl⟩, by simp⟩, ?_, ?_⟩ <;>
    simp [run, Op.apply, register, registerEventFn, setEventFn, getEventFn, expectedYield,
      process, loopRun, Turn.result, processTurn, -AList.insert_empty]

/-- A `"hook"` for a jid registered with `Register`, or for a meta id, calls a nil `EventFn`. -/
theorem hook_calls_nil_eventFn (ids : IdSource) (made : Nat) (err : Option String)
    (callFull : Bool) (outSel : OutSel) :
    processTurn 0 (⟨.value .broadcast (some ⟨"x", "hook", "", none⟩),
      (run ids ⟨∅, made⟩ [.register "x"]).1, err, callFull, outSel⟩ : Tick Unit) = .exit .panic ∧
    processTurn 0 (⟨.value .send (some ⟨" alert", "hook", "", none⟩), ⟨∅, made⟩, err, callFull,
      outSel⟩ : Tick Unit) = .exit .panic := by
  constructor <;> simp [run, Op.apply, register, registerEventFn, getEventFn, processTurn, metaIds,
    -AList.insert_empty]

/-! ## Routing an event to its handler -/

/-- **An event reaches the handler the page installed last**: the function of the last call on its
jid that replaces one (`SetEventFn`, `OnEvent`, or `RegisterEventFn` with a non-nil function), else
that of the first call. -/
theorem event_routes_to_lastHandler (self : Nat) (ids : IdSource) (made : Nat) (ops : List (Op F))
    {src : Src} {m : Message} (hsrc : src = .incoming ∨ m.what = "trigger")
    (hself : m.fromRq ≠ some self) (err : Option String) (callFull : Bool) (out : OutSel) :
    processTurn self ⟨.value src (some m), (run ids ⟨∅, made⟩ ops).1, err, callFull, out⟩ =
      match lastHandler ((run ids ⟨∅, made⟩ ops).2.filter (·.jid = m.elem)) with
      | some (some f) => if callFull then .exit .callFull else .next (.call ⟨f, m⟩)
      | _ => .next .skip := by
  have hlookup : (run ids ⟨∅, made⟩ ops).1.elems.lookup m.elem =
      lastHandler ((run ids ⟨∅, made⟩ ops).2.filter (·.jid = m.elem)) := by
    rw [lookup_run, AList.lookup_empty, settle_none]
  simp only [processTurn, if_neg hself, getEventFn, hlookup]
  rcases lastHandler ((run ids ⟨∅, made⟩ ops).2.filter (·.jid = m.elem)) with _ | _ | f
  · cases decide (m.elem ∈ metaIds) <;> simp [hsrc]
  all_goals simp [hsrc]

/-- A `MakeID` that counts in letters: its `n`th jid is `n + 1` times `x`. -/
def letterIds : IdSource :=
  ⟨fun n => ⟨List.replicate (n + 1) 'x'⟩, fun a b h => by simpa using congrArg String.length h⟩

theorem event_routes_to_lastHandler_click :
    (Src.incoming = .incoming ∨ "click" = "trigger") ∧ (none : Option Nat) ≠ some 0 ∧
      processTurn 0 ⟨.value .incoming (some ⟨"b", "click", "", none⟩),
          (run letterIds ⟨∅, 0⟩ [.registerEventFn "b" (some 1), .setEventFn "b" (some 2)]).1,
          none, false, .sent⟩ = .next (.call ⟨2, ⟨"b", "click", "", none⟩⟩) :=
  ⟨.inl rfl, by simp,
    (event_routes_to_lastHandler 0 letterIds 0 _ (.inl rfl) (by simp) none false .sent).trans rfl⟩

/-! ## The text of an alert -/

/-- The five entities `html.EscapeString` writes, read back as a browser reads them; every
other character stands for itself. -/
def unescapeEntities : List Char → List Char
  | [] => []
  | c :: s =>
    if c = '&' ∧ s.take 4 = ['a', 'm', 'p', ';'] then '&' :: unescapeEntities (s.drop 4)
    else if c = '&' ∧ s.take 4 = ['#', '3', '9', ';'] then '\x27' :: unescapeEntities (s.drop 4)
    else if c = '&' ∧ s.take 3 = ['l', 't', ';'] then '<' :: unescapeEntities (s.drop 3)
    else if c = '&' ∧ s.take 3 = ['g', 't', ';'] then '>' :: unescapeEntities (s.drop 3)
    else if c = '&' ∧ s.take 4 = ['#', '3', '4', ';'] then '\x22' :: unescapeEntities (s.drop 4)
    else c :: unescapeEntities s
termination_by s => s.length
decreasing_by all_goals (simp_wf; try omega)

theorem unescapeEntities_escapeChar (c : Char) (s : List Char) :
    unescapeEntities (escapeChar c ++ s) = c :: unescapeEntities s := by
  unfold escapeChar
  split_ifs with h1 h2 h3 h4 h5
  all_goals try subst c
  all_goals simp [unescapeEntities, *]

theorem not_markup_of_mem_escapeString {e : String} {c : Char} (h : c ∈ (escapeString e).toList) :
    c ≠ '<' ∧ c ≠ '>' ∧ c ≠ '\x22' ∧ c ≠ '\x27' := by
  obtain ⟨d, -, hd⟩ := List.mem_flatMap.1 h
  unfold escapeChar at hd
  split_ifs at hd
  all_goals first
    | exact (show ∀ x ∈ _, x ≠ '<' ∧ x ≠ '>' ∧ x ≠ '\x22' ∧ x ≠ '\x27' by decide)
        c hd
    | (rw [List.mem_singleton] at hd; subst hd; simp_all)

/-- **The alert for an error shows its text and nothing else.** -/
theorem makeAlertDangerMessage_text (e : String) :
    ∃ m, makeAlertDangerMessage (some e) = some m ∧
      (∀ c ∈ m.data.toList, c ≠ '<' ∧ c ≠ '>' ∧ c ≠ '\x22' ∧ c ≠ '\x27') ∧
      unescapeEntities m.data.toList = e.toList := by
  refine ⟨_, rfl, fun c hc => not_markup_of_mem_escapeString hc, ?_⟩
  show unescapeEntities (e.toList.flatMap escapeChar) = e.toList
  induction e.toList with
  | nil => rw [List.flatMap_nil, unescapeEntities]
  | cons c s ih => rw [List.flatMap_cons, unescapeEntities_escapeChar, ih]

end Jaws
