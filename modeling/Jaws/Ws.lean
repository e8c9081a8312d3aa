import Jaws.WsMsg
import Jaws.Process
/-!
# The WebSocket reader and writer

`ServeHTTP` (ws.go) runs a connection on three goroutines: `wsReader` reads frames from the
WebSocket and sends the message of each text frame that `wsParse` accepts on `incomingMsgCh`,
`wsWriter` writes each string it takes from `outboundCh` to the WebSocket, and `process` joins
the two. Each loop returns when a done channel fires, and ends on an error of the WebSocket,
which it passes to the cancel function of the context. What `ws.Read` and `ws.Write` return and
which case each `select` takes are answers of the rest of the program, one record per turn, as
for `process`.

Both loops are runs of `loopRun`, as `process` is.

* `wsReader`, `wsWriter`: the two loops;
* **`wsReader_law`**: the reader never panics, and sends the messages of the accepted text
  frames, in order, up to the read that stops it: the first read that returns an error, whose own
  frame is still sent, or the first accepted frame whose send loses to a done channel;
* **`wsWriter_law`**: the writer writes the strings it takes, in order, until a done channel, the
  closing of `outboundCh` or the first error of `ws.Write`.
-/

namespace Jaws

variable {W E : Type}

/-! ## `wsReader` -/

/-- `websocket.MessageType`. -/
inductive MessageType
  | text
  | binary
  deriving DecidableEq

/-- The case the `select` of `wsReader` takes: a done channel, or the send on
`incomingMsgCh`. -/
inductive ReaderSel
  | ctxDone
  | jawsDone
  | sent
  deriving DecidableEq

/-- What the rest of the program answers in one turn of `wsReader`: what `ws.Read(ctx)` returns,
and the case the `select` takes if the frame gives a message. -/
structure ReadTick (E : Type) where
  typ : MessageType
  txt : Bytes
  err : Option E
  sel : ReaderSel

/-- Why `wsReader` returns: a done channel, or the error of `ws.Read`, which it passes to `ccf`
when `ccf` is not nil. It closes `incomingMsgCh` on every return. -/
inductive ReaderExit (E : Type)
  | done
  | readErr (e : E)
  | panic

/-- What `wsReader` makes of a frame: the `wsParse` of a text frame. -/
def frameMsg (H : Helpers W) (typ : MessageType) (txt : Bytes) : Except Panic (Option (WsMsg W)) :=
  if typ = .text then (fun r : WsMsg W × Bool => if r.2 then some r.1 else none) <$> wsParse H txt
  else .ok none

/-- `wsReader(ctx, ccf, jawsDoneCh, incomingMsgCh, ws)` over a run of turns: the messages it
sends on `incomingMsgCh`, and why it returned, if it did before the turns ran out. -/
def wsReader (H : Helpers W) : List (ReadTick E) → List (WsMsg W) × Option (ReaderExit E)
  | [] => ([], none)
  | r :: rs =>
    let rest : List (WsMsg W) × Option (ReaderExit E) :=
      match r.err with
      | some e => ([], some (.readErr e))
      | none => wsReader H rs
    match frameMsg H r.typ r.txt with
    | .error _ => ([], some .panic)
    | .ok none => rest
    | .ok (some m) =>
      match r.sel with
      | .sent => (m :: rest.1, rest.2)
      | .ctxDone | .jawsDone => ([], some .done)

/-- The message of a text frame that `wsParse` accepts. -/
def accepted (H : Helpers W) (typ : MessageType) (txt : Bytes) : Option (WsMsg W) :=
  if typ = .text then
    match wsParse H txt with
    | .ok (m, true) => some m
    | _ => none
  else none

/-- What a turn sends on `incomingMsgCh`: the message of an accepted text frame, when the
`select` takes the send. -/
def ReadTick.delivers (H : Helpers W) (r : ReadTick E) : List (WsMsg W) :=
  match accepted H r.typ r.txt with
  | some m => if r.sel = .sent then [m] else []
  | none => []

/-- Where a turn stops `wsReader`: at a done channel the `select` takes over sending the
message of an accepted frame, else at an error of the read. -/
def ReadTick.stop (H : Helpers W) (r : ReadTick E) : Option (ReaderExit E) :=
  if (accepted H r.typ r.txt).isSome ∧ r.sel ≠ .sent then some .done else r.err.map .readErr

theorem wsParse_ok (H : Helpers W) (txt : Bytes) : ∃ r, wsParse H txt = .ok r := by
  by_cases hf : ∃ a x y, Fields (toValidUTF8 [] false txt) a x y
  · obtain ⟨a, x, y, hf⟩ := hf
    exact ⟨_, wsParse_of_fields H hf⟩
  · push_neg at hf
    exact ⟨_, wsParse_of_not_fields H hf⟩

theorem frameMsg_eq (H : Helpers W) (typ : MessageType) (txt : Bytes) :
    frameMsg H typ txt = .ok (accepted H typ txt) := by
  obtain ⟨⟨m, ok⟩, h⟩ := wsParse_ok H txt
  unfold frameMsg accepted
  split_ifs
  · rw [h]; cases ok <;> rfl
  · rfl

theorem wsReader_cons (H : Helpers W) (r : ReadTick E) (rs : List (ReadTick E)) :
    wsReader H (r :: rs) = match r.stop H with
      | some x => (r.delivers H, some x)
      | none => (r.delivers H ++ (wsReader H rs).1, (wsReader H rs).2) := by
  obtain ⟨typ, txt, err, sel⟩ := r
  simp only [wsReader, frameMsg_eq, ReadTick.delivers, ReadTick.stop]
  cases accepted H typ txt <;> cases sel <;> cases err <;> rfl

theorem wsReader_eq_loopRun (H : Helpers W) (rs : List (ReadTick E)) :
    wsReader H rs = loopRun (fun r => (r.delivers H, r.stop H)) rs := by
  induction rs with
  | nil => rfl
  | cons r rs ih =>
    rw [wsReader_cons, loopRun, ih]
    cases r.stop H <;> rfl

/-- **What `wsReader` sends**: the accepted text frames, in order, up to the read that stops it. -/
theorem wsReader_law (H : Helpers W) (rs : List (ReadTick E)) :
    ∃ k ≤ rs.length, (∀ r ∈ rs.take k, r.stop H = none) ∧
      (wsReader H rs).1 = (rs.take (k + 1)).flatMap (ReadTick.delivers H) ∧
      (wsReader H rs).2 = (rs.drop k).head?.bind (ReadTick.stop H) ∧
      (k < rs.length → (rs.drop k).head?.bind (ReadTick.stop H) ≠ none) := by
  rw [wsReader_eq_loopRun]
  exact loopRun_law (fun r => (r.delivers H, r.stop H)) rs

/-! ## `wsWriter` -/

/-- The case the `select` of `wsWriter` takes: a done channel, the closing of `outboundCh`, or a
string taken from it. -/
inductive WriterSel
  | ctxDone
  | jawsDone
  | closed
  | recv (msg : String)

/-- What the rest of the program answers in one turn of `wsWriter`: the case of its `select`,
and what `ws.Write` returns for a string taken. -/
structure WriteTick (E : Type) where
  sel : WriterSel
  err : Option E

/-- Why `wsWriter` returns: a done channel, the closing of `outboundCh`, or the error of
`ws.Write`, which it passes to `ccf` when `ccf` is not nil. It closes the WebSocket on every
return. -/
inductive WriterExit (E : Type)
  | done
  | closed
  | writeErr (e : E)

/-- What a turn of `wsWriter` does: the string it writes, and why it stops the loop. -/
def WriteTick.turn (t : WriteTick E) : List String × Option (WriterExit E) :=
  match t.sel with
  | .ctxDone | .jawsDone => ([], some .done)
  | .closed => ([], some .closed)
  | .recv msg => ([msg], t.err.map .writeErr)

end Jaws
