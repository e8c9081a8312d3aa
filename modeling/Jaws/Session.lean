import Jaws.Process

/-!
# The goroutines of a connection

`ServeHTTP` runs `rq.process` once the WebSocket is up. `process` starts `eventCaller`, which
calls the event functions queued on `eventCallCh`, sending the alert of a failed call on
`outboundMsgCh`. When `process` leaves its loop, its deferred teardown unsubscribes the
broadcast channel, closes `eventCallCh`, and drains its inputs until `eventCaller` has closed
`eventDoneCh`; it then closes `outboundMsgCh` and returns, and `ServeHTTP` recycles the
`Request`. The writer goroutine reads `outboundMsgCh` meanwhile, and any goroutine may call
`rq.Send`.

`Sys` is the state of these goroutines and channels, and `next` a step of one of them, in any
interleaving. A turn of the loop of `process` is one step, `processTurn` with any answers of the
rest of the program; the `select`s with a `default` may find room in a channel or not, so every
choice is allowed, as is every registry. The Go run time panics on a send on a closed channel
and on a second close: these are the faults. A `"hook"` for a jid with a nil function panics
inside the loop: the deferred teardown runs all the same, and the panic then goes on up through
`ServeHTTP`, past its `rq.recycle()`; `panicked` records it. The ghost fields `enqueued` and
`taken` record the calls `process` queued, and who took each one off `eventCallCh`.

* `next`, `Reachable`: the steps, and the states they reach from the start of `process`;
* `Inv`: the invariant, with `inv_init` and **`inv_next`**;
* **`teardown_safe`**: in every reachable state there was no fault, each channel was closed and
  the broadcast channel unsubscribed at most once, and exactly once by the time `process`
  returns, `outboundMsgCh` only after `eventDoneCh`, and `eventCaller` has exited then;
* **`calls_in_order`**: the calls `eventCaller` makes, and those the drain loop throws away,
  are taken from `eventCallCh` in the order `process` queued them, each once;
* **`teardown_completes`**: from every reachable state some schedule makes `process` return and,
  unless its loop panicked, `ServeHTTP` recycle the `Request`, so the teardown cannot deadlock;
* `next_rank_le` and **`nil_send_ends_loop`**: the phase of `process` only advances, so the nil
  message `rq.Send(nil)` puts on the open `sendCh`, which ends the loop, ends the connection.
-/

namespace Jaws

variable {F : Type}

/-- Where `process` is: its loop, the steps of its deferred teardown, or returned. -/
inductive Phase
  | loop
  | unsubscribe
  | closeCalls
  | drain
  | returned
  deriving DecidableEq

/-- The order of the phases. -/
def Phase.rank : Phase → Nat
  | .loop => 0
  | .unsubscribe => 1
  | .closeCalls => 2
  | .drain => 3
  | .returned => 4

/-- Where `eventCaller` is: at `range eventCallCh`, running a call, or returned. -/
inductive Caller (F : Type)
  | waiting
  | calling (c : EventFnCall F)
  | exited

/-- Whether `eventCaller` has returned. -/
def Caller.isExited : Caller F → Bool
  | .exited => true
  | _ => false

/-- Who took a call off `eventCallCh`. -/
inductive Taker
  | caller
  | drain
  deriving DecidableEq

/-- A panic of the Go run time. -/
inductive Fault
  | sendOnClosedCalls
  | sendOnClosedOut
  | closeClosedCalls
  | closeClosedOut
  | closeClosedDone

/-- The goroutines of a connection and their channels. -/
structure Sys (F : Type) where
  phase : Phase
  caller : Caller F
  /-- The buffer of `eventCallCh`. -/
  calls : List (EventFnCall F)
  /-- How many times `eventCallCh` was closed. -/
  callsClosed : Nat
  /-- The buffer of `outboundMsgCh`. -/
  out : List Message
  outClosed : Nat
  /-- How many times `eventDoneCh` was closed. -/
  doneClosed : Nat
  /-- How many times `broadcastMsgCh` was unsubscribed. -/
  unsubscribed : Nat
  recycled : Bool
  /-- Whether the loop left by a panic, which skips `rq.recycle()`. -/
  panicked : Bool
  fault : Option Fault
  /-- Every call `process` queued on `eventCallCh`, in order. -/
  enqueued : List (EventFnCall F)
  /-- Every call taken off `eventCallCh`, in order, with who took it. -/
  taken : List (Taker × EventFnCall F)

/-- The state when `process` starts. -/
def Sys.init : Sys F :=
  ⟨.loop, .waiting, [], 0, [], 0, 0, 0, false, false, none, [], []⟩

/-- `eventCallCh <- c`. -/
def Sys.sendCall (s : Sys F) (c : EventFnCall F) : Sys F :=
  if s.callsClosed = 0 then { s with calls := s.calls ++ [c], enqueued := s.enqueued ++ [c] }
  else { s with fault := some .sendOnClosedCalls }

/-- `outboundMsgCh <- m`, when the channel has room. -/
def Sys.sendOut (s : Sys F) (m : Message) : Sys F :=
  if s.outClosed = 0 then { s with out := s.out ++ [m] }
  else { s with fault := some .sendOnClosedOut }

/-- The `select` of `eventCaller` that sends the alert of a failed call or takes its
`default`; a closed `outboundMsgCh` makes the send proceed, and panic. -/
def Sys.alert (s : Sys F) (err : Option String) (room : Bool) : Sys F :=
  match makeAlertDangerMessage err with
  | none => s
  | some m => if room ∨ 0 < s.outClosed then s.sendOut m else s

/-- One turn of the loop of `process`. -/
def Sys.turn (s : Sys F) : Turn F → Sys F
  | .next .skip => s
  | .next (.call c) => s.sendCall c
  | .next (.out m) => s.sendOut m
  | .exit e => { s with phase := .unsubscribe, panicked := decide (e = .panic) }

/-- A step of one goroutine. -/
inductive Act (F : Type)
  /-- `process`: one turn of its loop, with the answers of the rest of the program. -/
  | turn (t : Tick F)
  /-- `process`: `rq.Jaws.unsubscribe(broadcastMsgCh)`. -/
  | unsubscribe
  /-- `process`: `close(eventCallCh)`. -/
  | closeCalls
  /-- `process`, draining: `<-eventCallCh`. -/
  | drainCall
  /-- `process`, draining: `<-rq.sendCh` or `<-incomingMsgCh`. -/
  | drainInput
  /-- `process`, draining: `<-eventDoneCh`, then `close(outboundMsgCh)` and return. -/
  | drainDone
  /-- `eventCaller`: the next call from `eventCallCh`. -/
  | take
  /-- `eventCaller`: the function returns `err`; `room` says whether `outboundMsgCh` has room
  for the alert. -/
  | finish (err : Option String) (room : Bool)
  /-- `eventCaller`: `eventCallCh` is closed and empty; `close(eventDoneCh)` and return. -/
  | exit
  /-- The writer: a message from `outboundMsgCh`. -/
  | write
  /-- `ServeHTTP`: `rq.recycle()` after `process` returned without a panic. -/
  | recycle

/-- The step `a` from `s`, or `none` when it cannot be taken there. -/
def next (self : Nat) (s : Sys F) : Act F → Option (Sys F)
  | .turn t => if s.phase = .loop then some (s.turn (processTurn self t)) else none
  | .unsubscribe =>
    if s.phase = .unsubscribe then
      some { s with unsubscribed := s.unsubscribed + 1, phase := .closeCalls }
    else none
  | .closeCalls =>
    if s.phase = .closeCalls then
      some { s with
        callsClosed := s.callsClosed + 1
        phase := .drain
        fault := if s.callsClosed = 0 then s.fault else some .closeClosedCalls }
    else none
  | .drainCall =>
    if s.phase = .drain then
      match s.calls with
      | c :: cs => some { s with calls := cs, taken := s.taken ++ [(.drain, c)] }
      | [] => if 0 < s.callsClosed then some s else none
    else none
  | .drainInput => if s.phase = .drain then some s else none
  | .drainDone =>
    if s.phase = .drain ∧ 0 < s.doneClosed then
      some { s with
        outClosed := s.outClosed + 1
        phase := .returned
        fault := if s.outClosed = 0 then s.fault else some .closeClosedOut }
    else none
  | .take =>
    match s.caller, s.calls with
    | .waiting, c :: cs =>
      some { s with caller := .calling c, calls := cs, taken := s.taken ++ [(.caller, c)] }
    | _, _ => none
  | .finish err room =>
    match s.caller with
    | .calling _ => some (Sys.alert { s with caller := .waiting } err room)
    | _ => none
  | .exit =>
    match s.caller, s.calls with
    | .waiting, [] =>
      if 0 < s.callsClosed then
        some { s with
          doneClosed := s.doneClosed + 1
          caller := .exited
          fault := if s.doneClosed = 0 then s.fault else some .closeClosedDone }
      else none
    | _, _ => none
  | .write =>
    match s.out with
    | _ :: ms => some { s with out := ms }
    | [] => none
  | .recycle =>
    if s.phase = .returned ∧ s.recycled = false ∧ s.panicked = false then
      some { s with recycled := true }
    else none

/-- The states reachable from the start of `process`. -/
inductive Reachable (self : Nat) : Sys F → Prop
  | init : Reachable self Sys.init
  | step {s s' : Sys F} (a : Act F) : Reachable self s → next self s a = some s' → Reachable self s'

/-- The calls `eventCaller` took, the one it runs included. -/
def Sys.invoked (s : Sys F) : List (EventFnCall F) :=
  (s.taken.filter (·.1 = .caller)).map (·.2)

/-- The calls the drain loop threw away. -/
def Sys.removed (s : Sys F) : List (EventFnCall F) :=
  (s.taken.filter (·.1 = .drain)).map (·.2)

/-! ## The invariant -/

/-- What holds in every reachable state. -/
structure Inv (s : Sys F) : Prop where
  fault : s.fault = none
  unsubscribed : s.unsubscribed = if 2 ≤ s.phase.rank then 1 else 0
  callsClosed : s.callsClosed = if 3 ≤ s.phase.rank then 1 else 0
  outClosed : s.outClosed = if 4 ≤ s.phase.rank then 1 else 0
  doneClosed : s.doneClosed = if s.caller.isExited then 1 else 0
  exited : s.caller.isExited → 3 ≤ s.phase.rank ∧ s.calls = []
  returned : s.phase = .returned → s.caller.isExited
  recycled : s.recycled → s.phase = .returned
  queue : s.taken.map (·.2) ++ s.calls = s.enqueued
  beforeDrain : s.phase.rank < 3 → s.removed = []
  panicked : s.panicked → 1 ≤ s.phase.rank ∧ s.recycled = false

theorem inv_init : Inv (Sys.init : Sys F) := by
  constructor <;> simp [Sys.init, Phase.rank, Caller.isExited, Sys.removed]

theorem Inv.not_exited_of_lt {s : Sys F} (hi : Inv s) (h : s.phase.rank < 3) :
    s.caller.isExited = false := by
  cases hx : s.caller.isExited
  · rfl
  · exact absurd (hi.exited hx).1 (by omega)

theorem Inv.not_recycled {s : Sys F} (hi : Inv s) (h : s.phase ≠ .returned) : s.recycled = false := by
  cases hr : s.recycled
  · rfl
  · exact absurd (hi.recycled hr) h

theorem Inv.outClosed_of_not_exited {s : Sys F} (hi : Inv s) (h : s.caller.isExited = false) :
    s.outClosed = 0 := by
  have := hi.outClosed
  have hp : s.phase ≠ .returned := fun hp => by simp [hi.returned hp] at h
  cases hq : s.phase <;> simp_all [Phase.rank]

theorem inv_turn {s : Sys F} (hi : Inv s) (hl : s.phase = .loop) (tn : Turn F) :
    Inv (s.turn tn) := by
  have hr0 : s.phase.rank = 0 := by rw [hl]; rfl
  have hx := hi.not_exited_of_lt (by omega)
  rcases tn with (_ | c | m) | e
  · exact hi
  · have hc : s.callsClosed = 0 := by simpa [hr0] using hi.callsClosed
    simp only [Sys.turn, Sys.sendCall, if_pos hc]
    exact ⟨hi.fault, hi.unsubscribed, hi.callsClosed, hi.outClosed, hi.doneClosed,
      fun h => absurd h (by simp [hx]), hi.returned, hi.recycled, by simp [← hi.queue],
      hi.beforeDrain, hi.panicked⟩
  · have ho : s.outClosed = 0 := hi.outClosed_of_not_exited hx
    simp only [Sys.turn, Sys.sendOut, if_pos ho]
    exact ⟨hi.fault, hi.unsubscribed, hi.callsClosed, hi.outClosed, hi.doneClosed,
      hi.exited, hi.returned, hi.recycled, hi.queue, hi.beforeDrain, hi.panicked⟩
  · have hu := hi.unsubscribed
    have hc := hi.callsClosed
    have ho := hi.outClosed
    rw [hr0] at hu hc ho
    have hr := hi.not_recycled (by simp [hl])
    refine ⟨hi.fault, ?_, ?_, ?_, hi.doneClosed, fun h => absurd h (by simp [Sys.turn, hx]),
      ?_, ?_, hi.queue, fun _ => hi.beforeDrain (by omega),
      fun _ => ⟨by simp [Sys.turn, Phase.rank], hr⟩⟩
    · simpa [Sys.turn, Phase.rank] using hu
    · simpa [Sys.turn, Phase.rank] using hc
    · simpa [Sys.turn, Phase.rank] using ho
    · intro h; cases h
    · intro h; simp [Sys.turn, hr] at h

/-- **Every step keeps the invariant.** -/
theorem inv_next {self : Nat} {s s' : Sys F} {a : Act F} (hi : Inv s) (h : next self s a = some s') :
    Inv s' := by
  cases a with
  | turn t =>
    simp only [next] at h
    split_ifs at h with hl
    cases h
    exact inv_turn hi hl _
  | unsubscribe =>
    simp only [next] at h
    by_cases hp : s.phase = .unsubscribe
    · rw [if_pos hp] at h
      cases h
      have hr : s.phase.rank = 1 := by rw [hp]; rfl
      have hx := hi.not_exited_of_lt (by omega)
      have hu := hi.unsubscribed
      have hc := hi.callsClosed
      have ho := hi.outClosed
      rw [hr] at hu hc ho
      refine ⟨hi.fault, ?_, ?_, ?_, hi.doneClosed, fun h => absurd h (by simp [hx]),
        (fun h => by cases h), ?_, hi.queue, fun _ => hi.beforeDrain (by omega),
        fun h => ⟨by simp [Phase.rank], (hi.panicked h).2⟩⟩
      · simp [Phase.rank, hu]
      · simpa [Phase.rank] using hc
      · simpa [Phase.rank] using ho
      · intro h; simp [hi.not_recycled (by simp [hp])] at h
    · rw [if_neg hp] at h
      cases h
  | closeCalls =>
    simp only [next] at h
    by_cases hp : s.phase = .closeCalls
    · rw [if_pos hp] at h
      cases h
      have hr : s.phase.rank = 2 := by rw [hp]; rfl
      have hx := hi.not_exited_of_lt (by omega)
      have hu := hi.unsubscribed
      have hc := hi.callsClosed
      have ho := hi.outClosed
      rw [hr] at hu hc ho
      simp only [show ¬ 3 ≤ 2 by omega, if_false] at hc
      refine ⟨by simp [hc, hi.fault], ?_, ?_, ?_, hi.doneClosed, fun h => absurd h (by simp [hx]),
        (fun h => by cases h), ?_, hi.queue, fun h => absurd h (by simp [Phase.rank]),
        fun h => ⟨by simp [Phase.rank], (hi.panicked h).2⟩⟩
      · simpa [Phase.rank] using hu
      · simp [Phase.rank, hc]
      · simpa [Phase.rank] using ho
      · intro h; simp [hi.not_recycled (by simp [hp])] at h
    · rw [if_neg hp] at h
      cases h
  | drainCall =>
    simp only [next] at h
    by_cases hp : s.phase = .drain
    · rw [if_pos hp] at h
      split at h
      · rename_i c cs hcs
        cases h
        have hx : s.caller.isExited = false := by
          cases hx : s.caller.isExited
          · rfl
          · simp [(hi.exited hx).2] at hcs
        refine ⟨hi.fault, hi.unsubscribed, hi.callsClosed, hi.outClosed, hi.doneClosed,
          fun h => absurd h (by simp [hx]), hi.returned, hi.recycled, ?_,
          fun h => absurd h (by simp [hp, Phase.rank]), hi.panicked⟩
        simp [← hi.queue, hcs]
      · split_ifs at h
        cases h
        exact hi
    · rw [if_neg hp] at h
      cases h
  | drainInput =>
    simp only [next] at h
    split_ifs at h
    cases h
    exact hi
  | drainDone =>
    simp only [next] at h
    by_cases hp : s.phase = .drain ∧ 0 < s.doneClosed
    · rw [if_pos hp] at h
      cases h
      have hx : s.caller.isExited := by
        have := hi.doneClosed
        split_ifs at this with hx
        · exact hx
        · omega
      have hr : s.phase.rank = 3 := by rw [hp.1]; rfl
      have hu := hi.unsubscribed
      have hc := hi.callsClosed
      have ho := hi.outClosed
      rw [hr] at hu hc ho
      simp only [show ¬ 4 ≤ 3 by omega, if_false] at ho
      refine ⟨by simp [ho, hi.fault], ?_, ?_, ?_, hi.doneClosed, fun h => ?_, fun _ => hx,
        fun _ => rfl, hi.queue, fun h => absurd h (by simp [Phase.rank]),
        fun h => ⟨by simp [Phase.rank], (hi.panicked h).2⟩⟩
      · simpa [Phase.rank] using hu
      · simpa [Phase.rank] using hc
      · simp [Phase.rank, ho]
      · exact ⟨by simp [Phase.rank], (hi.exited h).2⟩
    · rw [if_neg hp] at h
      cases h
  | take =>
    simp only [next] at h
    split at h
    · rename_i c cs hw hcs
      cases h
      have hp : s.phase ≠ .returned := fun hp => by simpa [hw, Caller.isExited] using hi.returned hp
      refine ⟨hi.fault, hi.unsubscribed, hi.callsClosed, hi.outClosed, ?_, (fun h => by cases h),
        fun h => absurd h hp, hi.recycled, by simp [← hi.queue, hcs], fun h => ?_, hi.panicked⟩
      · simpa [hw, Caller.isExited] using hi.doneClosed
      · simpa [Sys.removed] using hi.beforeDrain h
    · cases h
  | finish err room =>
    simp only [next] at h
    split at h
    · rename_i c hc
      cases h
      have hx : s.caller.isExited = false := by simp [hc, Caller.isExited]
      have ho := hi.outClosed_of_not_exited hx
      have hp : s.phase ≠ .returned := fun hp => by simp [hi.returned hp] at hx
      have hi' : Inv { s with caller := .waiting } :=
        ⟨hi.fault, hi.unsubscribed, hi.callsClosed, hi.outClosed, by simpa [hx] using hi.doneClosed,
          (fun h => by cases h), fun h => absurd h hp, hi.recycled, hi.queue, hi.beforeDrain,
          hi.panicked⟩
      unfold Sys.alert
      split
      · exact hi'
      · split_ifs
        · rw [Sys.sendOut, if_pos ho]
          exact ⟨hi'.fault, hi'.unsubscribed, hi'.callsClosed, hi'.outClosed, hi'.doneClosed,
            hi'.exited, hi'.returned, hi'.recycled, hi'.queue, hi'.beforeDrain, hi'.panicked⟩
        · exact hi'
    · cases h
  | exit =>
    simp only [next] at h
    split at h
    · rename_i hw hcs
      by_cases hc : 0 < s.callsClosed
      · rw [if_pos hc] at h
        cases h
        have hx : s.caller.isExited = false := by simp [hw, Caller.isExited]
        have hd : s.doneClosed = 0 := by simpa [hx] using hi.doneClosed
        have hr : 3 ≤ s.phase.rank := by
          have := hi.callsClosed
          split_ifs at this with h3
          · exact h3
          · omega
        refine ⟨by simp [hd, hi.fault], hi.unsubscribed, hi.callsClosed, hi.outClosed,
          by simp [hd, Caller.isExited], fun _ => ⟨hr, hcs⟩, fun _ => rfl, hi.recycled, hi.queue,
          fun h => absurd (show s.phase.rank < 3 from h) (by omega), hi.panicked⟩
      · rw [if_neg hc] at h
        cases h
    · cases h
  | write =>
    simp only [next] at h
    split at h
    · cases h
      exact ⟨hi.fault, hi.unsubscribed, hi.callsClosed, hi.outClosed, hi.doneClosed, hi.exited,
        hi.returned, hi.recycled, hi.queue, hi.beforeDrain, hi.panicked⟩
    · cases h
  | recycle =>
    simp only [next] at h
    by_cases hp : s.phase = .returned ∧ s.recycled = false ∧ s.panicked = false
    · rw [if_pos hp] at h
      cases h
      exact ⟨hi.fault, hi.unsubscribed, hi.callsClosed, hi.outClosed, hi.doneClosed, hi.exited,
        hi.returned, fun _ => hp.1, hi.queue, hi.beforeDrain,
        fun h => absurd h (by simp [hp.2.2])⟩
    · rw [if_neg hp] at h
      cases h

theorem inv_reachable {self : Nat} {s : Sys F} (h : Reachable self s) : Inv s := by
  induction h with
  | init => exact inv_init
  | step _ _ hn ih => exact inv_next ih hn

/-- Run the steps `as` from `s`, as long as each can be taken. -/
def runActs (self : Nat) : Sys F → List (Act F) → Option (Sys F)
  | s, [] => some s
  | s, a :: as => (next self s a).bind (runActs self · as)

theorem reachable_of_runActs {self : Nat} {s s' : Sys F} {as : List (Act F)}
    (hs : Reachable self s) (h : runActs self s as = some s') : Reachable self s' := by
  induction as generalizing s with
  | nil => cases h; exact hs
  | cons a as ih =>
    simp only [runActs, Option.bind_eq_some] at h
    obtain ⟨s1, h1, h2⟩ := h
    exact ih (.step a hs h1) h2

/-! ## The phase only advances -/

@[simp] theorem Sys.alert_phase (s : Sys F) (err : Option String) (room : Bool) :
    (s.alert err room).phase = s.phase := by
  unfold Sys.alert Sys.sendOut
  split
  · rfl
  · split_ifs <;> rfl

/-- **No step takes `process` back**: its phase only advances. -/
theorem next_rank_le {self : Nat} {s s' : Sys F} {a : Act F} (h : next self s a = some s') :
    s.phase.rank ≤ s'.phase.rank := by
  cases a with
  | turn t =>
    -- a turn is taken in the loop, the first phase
    simp only [next] at h
    split_ifs at h with hl
    simp [hl, Phase.rank]
  | unsubscribe | closeCalls | drainDone =>
    -- the steps of the teardown move it on by one phase
    simp only [next] at h
    split_ifs at h with hp <;> cases h <;> simp [hp, Phase.rank]
  | drainCall | drainInput | take | finish | exit | write | recycle =>
    -- the other steps leave it alone
    have hp : s'.phase = s.phase := by
      simp only [next] at h
      repeat' split at h
      all_goals first | (cases h; simp) | cases h
    rw [hp]

theorem runActs_rank_le {self : Nat} {s s' : Sys F} {as : List (Act F)}
    (h : runActs self s as = some s') : s.phase.rank ≤ s'.phase.rank := by
  induction as generalizing s with
  | nil => cases h; exact le_refl _
  | cons a as ih =>
    simp only [runActs, Option.bind_eq_some] at h
    obtain ⟨s1, h1, h2⟩ := h
    exact (next_rank_le h1).trans (ih h2)

/-- **A nil message from `rq.Send` tears the connection down**, though `sendCh` is never closed. -/
theorem nil_send_ends_loop (self : Nat) {s : Sys F} (hl : s.phase = .loop) (reg : Registry F)
    (err : Option String) (callFull : Bool) (outSel : OutSel) :
    let t : Tick F := ⟨.value .send none, reg, err, callFull, outSel⟩
    processTurn self t = .exit .nilMsg ∧ ∃ s', next self s (.turn t) = some s' ∧
      s'.phase = .unsubscribe ∧ ∀ as s'', runActs self s' as = some s'' → s''.phase ≠ .loop := by
  intro t
  refine ⟨rfl, { s with phase := .unsubscribe, panicked := false },
    by simp [next, hl, t, processTurn, Sys.turn], rfl, fun as s'' h hs => ?_⟩
  have := runActs_rank_le h
  simp [hs, Phase.rank] at this

theorem nil_send_ends_loop_init :
    let t : Tick Unit := ⟨.value .send none, ⟨∅, 0⟩, none, false, .sent⟩
    (Sys.init : Sys Unit).phase = .loop ∧ processTurn 0 t = .exit .nilMsg ∧
      ∃ s', next 0 Sys.init (.turn t) = some s' ∧ s'.phase = .unsubscribe ∧
        ∀ as s'', runActs 0 s' as = some s'' → s''.phase ≠ .loop :=
  ⟨rfl, nil_send_ends_loop 0 rfl ⟨∅, 0⟩ none false .sent⟩

/-! ## Teardown -/

/-- **The teardown is safe**: no channel is used after its close or closed twice, and each is closed
once by the return. -/
theorem teardown_safe {self : Nat} {s : Sys F} (h : Reachable self s) :
    s.fault = none ∧ s.callsClosed ≤ 1 ∧ s.doneClosed ≤ 1 ∧ s.outClosed ≤ 1 ∧
      s.unsubscribed ≤ 1 ∧ (0 < s.outClosed → 0 < s.doneClosed) ∧
      (s.phase = .returned → s.callsClosed = 1 ∧ s.doneClosed = 1 ∧ s.outClosed = 1 ∧
        s.unsubscribed = 1 ∧ s.caller.isExited) ∧
      (s.recycled → s.caller.isExited) := by
  have hi := inv_reachable h
  have hu := hi.unsubscribed
  have hc := hi.callsClosed
  have hd := hi.doneClosed
  have ho := hi.outClosed
  have hret : s.phase = .returned → s.caller.isExited := hi.returned
  refine ⟨hi.fault, by split_ifs at hc <;> omega, by split_ifs at hd <;> omega,
    by split_ifs at ho <;> omega, by split_ifs at hu <;> omega, fun h => ?_, fun hp => ?_,
    fun hr => hret (hi.recycled hr)⟩
  · have hp : s.phase = .returned := by
      split_ifs at ho with h4
      · cases hq : s.phase <;> simp_all [Phase.rank]
      · omega
    simp [hd, hret hp]
  · have hx := hret hp
    simp_all [Phase.rank]

/-- The end of a connection that leaves its loop at once: `process` tears down, `eventCaller`
exits, and `ServeHTTP` recycles the `Request`. -/
def quickTeardown : List (Act Unit) :=
  [.turn ⟨.jawsDone, ⟨∅, 0⟩, none, false, .sent⟩, .unsubscribe, .closeCalls, .exit, .drainDone,
    .recycle]

theorem teardown_safe_quick :
    ∃ s, runActs 0 Sys.init quickTeardown = some s ∧ Reachable 0 s ∧
      s.fault = none ∧ s.callsClosed ≤ 1 ∧ s.doneClosed ≤ 1 ∧ s.outClosed ≤ 1 ∧
      s.unsubscribed ≤ 1 ∧ (0 < s.outClosed → 0 < s.doneClosed) ∧
      (s.phase = .returned → s.callsClosed = 1 ∧ s.doneClosed = 1 ∧ s.outClosed = 1 ∧
        s.unsubscribed = 1 ∧ s.caller.isExited) ∧
      (s.recycled → s.caller.isExited) := by
  obtain ⟨s, hs⟩ : ∃ s, runActs 0 Sys.init quickTeardown = some s := ⟨_, rfl⟩
  have hr := reachable_of_runActs .init hs
  exact ⟨s, hs, hr, teardown_safe hr⟩

/-! ## The order of the calls -/

theorem Sys.invoked_eq_of_removed_nil {s : Sys F} (h : s.removed = []) :
    s.invoked = s.taken.map (·.2) := by
  unfold Sys.invoked
  unfold Sys.removed at h
  rw [List.map_eq_nil_iff, List.filter_eq_nil_iff] at h
  rw [List.filter_eq_self.2 fun p hp => ?_]
  cases hq : p.1
  · rfl
  · exact absurd hq (by simpa using h p hp)

/-- **The calls keep their order**: each queued call is taken off `eventCallCh` once, in order. -/
theorem calls_in_order {self : Nat} {s : Sys F} (h : Reachable self s) :
    s.taken.map (·.2) ++ s.calls = s.enqueued ∧
      s.invoked.Sublist s.enqueued ∧ s.removed.Sublist s.enqueued ∧
      (s.phase.rank < 3 → s.invoked ++ s.calls = s.enqueued) := by
  have hi := inv_reachable h
  have htaken : (s.taken.map (·.2)).Sublist s.enqueued := hi.queue ▸ List.sublist_append_left _ _
  refine ⟨hi.queue, ((List.filter_sublist _).map _).trans htaken,
    ((List.filter_sublist _).map _).trans htaken, fun hp => ?_⟩
  rw [Sys.invoked_eq_of_removed_nil (hi.beforeDrain hp), hi.queue]

/-- Two events queued while `eventCaller` runs the first; the loop then stops, and the drain
loop throws the second away. -/
def drainedRun : List (Act Unit) :=
  let reg : Registry Unit := ⟨(∅ : AList (fun _ : String => Option Unit)).insert "b" (some ()), 0⟩
  let click : Tick Unit := ⟨.value .incoming (some ⟨"b", "click", "", none⟩), reg, none, false, .sent⟩
  [.turn click, .take, .turn click, .turn ⟨.ctxDone, reg, none, false, .sent⟩, .unsubscribe,
    .closeCalls, .drainCall, .finish none false, .exit, .drainDone]

theorem calls_in_order_drained :
    ∃ s, runActs 0 Sys.init drainedRun = some s ∧ Reachable 0 s ∧ s.removed.length = 1 ∧
      s.taken.map (·.2) ++ s.calls = s.enqueued ∧
      s.invoked.Sublist s.enqueued ∧ s.removed.Sublist s.enqueued ∧
      (s.phase.rank < 3 → s.invoked ++ s.calls = s.enqueued) := by
  have hr : Reachable 0 _ :=
    reachable_of_runActs .init (show runActs 0 Sys.init drainedRun = _ from rfl)
  exact ⟨_, rfl, hr, rfl, calls_in_order hr⟩

/-! ## The teardown completes -/

theorem runActs_append (self : Nat) (s : Sys F) (as bs : List (Act F)) :
    runActs self s (as ++ bs) = (runActs self s as).bind (runActs self · bs) := by
  induction as generalizing s with
  | nil => rfl
  | cons a as ih =>
    show (next self s a).bind (runActs self · (as ++ bs)) = _
    simp only [ih, runActs, Option.bind_assoc]

theorem runActs_trans {self : Nat} {s s1 s2 : Sys F} {as bs : List (Act F)}
    (h1 : runActs self s as = some s1) (h2 : runActs self s1 bs = some s2) :
    runActs self s (as ++ bs) = some s2 := by
  rw [runActs_append, h1]
  exact h2

/-- A tick on which `jawsDoneCh` fires. -/
def jawsDoneTick : Tick F := ⟨.jawsDone, ⟨∅, 0⟩, none, false, .sent⟩

theorem exists_run_to_drain (self : Nat) {s : Sys F} (hr : s.phase.rank ≤ 3)
    (hl : s.phase = .loop → s.panicked = false) :
    ∃ as s', runActs self s as = some s' ∧ s'.phase = .drain ∧ s'.panicked = s.panicked := by
  cases hp : s.phase with
  | loop =>
    exact ⟨[.turn jawsDoneTick, .unsubscribe, .closeCalls], _,
      by simp [runActs, next, hp, processTurn, jawsDoneTick, Sys.turn]; rfl, by rfl,
      by rw [hl hp]⟩
  | unsubscribe =>
    exact ⟨[.unsubscribe, .closeCalls], _, by simp [runActs, next, hp]; rfl, by rfl, by rfl⟩
  | closeCalls => exact ⟨[.closeCalls], _, by simp [runActs, next, hp]; rfl, by rfl, by rfl⟩
  | drain => exact ⟨[], s, rfl, hp, rfl⟩
  | returned => simp [hp, Phase.rank] at hr

theorem exists_run_to_idle (self : Nat) {s : Sys F} (hp : s.phase = .drain) :
    ∃ as s', runActs self s as = some s' ∧ s'.phase = .drain ∧
      (s'.caller = .waiting ∨ s'.caller = .exited) ∧ s'.panicked = s.panicked := by
  cases hc : s.caller with
  | waiting => exact ⟨[], s, rfl, hp, .inl hc, rfl⟩
  | calling c =>
    exact ⟨[.finish none false], { s with caller := .waiting },
      by simp [runActs, next, hc, Sys.alert, makeAlertDangerMessage], hp, .inl rfl, rfl⟩
  | exited => exact ⟨[], s, rfl, hp, .inr hc, rfl⟩

theorem exists_run_to_empty (self : Nat) {s : Sys F} (hp : s.phase = .drain) :
    ∃ s', runActs self s (List.replicate s.calls.length .drainCall) = some s' ∧
      s'.phase = .drain ∧ s'.calls = [] ∧ s'.caller = s.caller ∧ s'.doneClosed = s.doneClosed ∧
      s'.callsClosed = s.callsClosed ∧ s'.panicked = s.panicked := by
  obtain ⟨l, hl⟩ : ∃ l, s.calls = l := ⟨_, rfl⟩
  induction l generalizing s with
  | nil => exact ⟨s, by simp [hl, runActs], hp, hl, rfl, rfl, rfl, rfl⟩
  | cons c cs ih =>
    obtain ⟨s', h', h1, h2, h3, h4, h5, h6⟩ :=
      @ih { s with calls := cs, taken := s.taken ++ [(.drain, c)] } hp rfl
    refine ⟨s', ?_, h1, h2, h3, h4, h5, h6⟩
    simpa [hl, List.replicate_succ, runActs, next, hp] using h'

/-- **The teardown cannot deadlock**: some schedule makes `process` return and, unless its loop
panicked, `ServeHTTP` recycle the `Request`. -/
theorem teardown_completes {self : Nat} {s : Sys F} (h : Reachable self s) :
    ∃ as s', runActs self s as = some s' ∧ Reachable self s' ∧ s'.phase = .returned ∧
      s'.panicked = s.panicked ∧ s'.recycled = !s.panicked ∧ s'.callsClosed = 1 ∧
      s'.doneClosed = 1 ∧ s'.outClosed = 1 ∧ s'.unsubscribed = 1 ∧ s'.caller.isExited := by
  have hi := inv_reachable h
  -- first a state where `process` has returned, with the loop's exit as it was
  obtain ⟨as, s4, hrun, hret, hpan⟩ : ∃ as s4, runActs self s as = some s4 ∧
      s4.phase = .returned ∧ s4.panicked = s.panicked := by
    by_cases h4 : s.phase = .returned
    · exact ⟨[], s, rfl, h4, rfl⟩
    have hr : s.phase.rank ≤ 3 := by cases hq : s.phase <;> simp_all [Phase.rank]
    have hl : s.phase = .loop → s.panicked = false := fun hl => by
      cases hq : s.panicked
      · rfl
      · simpa [hl, Phase.rank] using (hi.panicked hq).1
    obtain ⟨as1, s1, h1, hp1, hq1⟩ := exists_run_to_drain self hr hl
    obtain ⟨as2, s2, h2, hp2, hw2, hq2⟩ := exists_run_to_idle self hp1
    obtain ⟨s3, h3, hp3, hn3, hc3, hd3, hk3, hq3⟩ := exists_run_to_empty self hp2
    have hi2 := inv_reachable (reachable_of_runActs (reachable_of_runActs h h1) h2)
    have hk : s3.callsClosed = 1 := by rw [hk3, hi2.callsClosed, hp2]; rfl
    -- `eventCaller` exits, unless it already has
    obtain ⟨bs, s4, h4, hp4, hd4, hq4⟩ : ∃ bs s4, runActs self s3 bs = some s4 ∧
        s4.phase = .drain ∧ 0 < s4.doneClosed ∧ s4.panicked = s3.panicked := by
      rcases hw2 with hw | hw
      · exact ⟨[.exit], _, by simp [runActs, next, hc3, hw, hn3, hk]; rfl, by exact hp3, by simp,
          by rfl⟩
      · exact ⟨[], s3, rfl, hp3, by simp [hd3, hi2.doneClosed, hw, Caller.isExited], rfl⟩
    -- and the drain loop sees `eventDoneCh` closed
    obtain ⟨s5, h5, hp5, hq5⟩ : ∃ s5, runActs self s4 [.drainDone] = some s5 ∧
        s5.phase = .returned ∧ s5.panicked = s4.panicked :=
      ⟨_, by simp [runActs, next, hp4, hd4]; rfl, by rfl, by rfl⟩
    exact ⟨_, s5, runActs_trans (runActs_trans (runActs_trans (runActs_trans h1 h2) h3) h4) h5,
      hp5, by rw [hq5, hq4, hq3, hq2, hq1]⟩
  -- then `ServeHTTP` recycles the `Request`, unless it already has or the loop panicked
  have hr4 := reachable_of_runActs h hrun
  obtain ⟨bs, s5, h5, hp5, hq5, hc5⟩ : ∃ bs s5, runActs self s4 bs = some s5 ∧
      s5.phase = .returned ∧ s5.panicked = s.panicked ∧ s5.recycled = !s.panicked := by
    cases hq : s.panicked
    · cases hc : s4.recycled
      · exact ⟨[.recycle], _, by simp [runActs, next, hret, hc, hpan, hq]; rfl, by rfl,
          by rfl, by rfl⟩
      · exact ⟨[], s4, rfl, hret, hpan.trans hq, hc⟩
    · exact ⟨[], s4, rfl, hret, hpan.trans hq,
        by simpa using ((inv_reachable hr4).panicked (hpan.trans hq)).2⟩
  have hr5 := reachable_of_runActs hr4 h5
  have hi5 := inv_reachable hr5
  refine ⟨as ++ bs, s5, runActs_trans hrun h5, hr5, hp5, hq5, hc5, ?_, ?_, ?_, ?_,
    hi5.returned hp5⟩
  · simpa [hp5, Phase.rank] using hi5.callsClosed
  · simpa [hi5.returned hp5] using hi5.doneClosed
  · simpa [hp5, Phase.rank] using hi5.outClosed
  · simpa [hp5, Phase.rank] using hi5.unsubscribed

theorem teardown_completes_init :
    ∃ as s', runActs 0 (Sys.init : Sys Unit) as = some s' ∧ Reachable 0 s' ∧
      s'.phase = .returned ∧ s'.panicked = false ∧ s'.recycled = true ∧ s'.callsClosed = 1 ∧
      s'.doneClosed = 1 ∧ s'.outClosed = 1 ∧ s'.unsubscribed = 1 ∧ s'.caller.isExited :=
  teardown_completes .init

end Jaws
