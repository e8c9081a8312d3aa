import Jaws.Strconv
import Mathlib.Data.Nat.Digits

/-!
# The WebSocket frame codec

A `wsMsg` travels over the WebSocket as the text frame `What \t Jid \t Data \n`. `wsMsg.Append`
writes it, with the jid field left out for a negative jid and the data quoted by
`strconv.AppendQuote` unless it is empty; `wsParse` reads a frame back after
`bytes.ToValidUTF8`. The helpers of package `what` and of `Jid`, which are not part of this
source, are the fields of `Helpers`; Go's run-time panics are the `Panic` errors of the bounds
checked `index` and `slice`.

* `WsMsg.append`, `wsParse`: the two functions of `wsmsg.go`;
* `Fields`: a frame cut at its first two tabs and its final newline;
* **`append_frame`**: every frame ends in its only newline and has one tab per field, and no
  payload adds a separator;
* **`wsParse_spec`**: `wsParse` never panics, and accepts exactly the frames whose command is
  valid and whose quoted data unquotes;
* **`wsParse_data_utf8`**: the data of an accepted message is well-formed UTF-8, unless it is
  what `strconv.Unquote` made of a quoted data field;
* **`wsParse_append`**: `wsParse` reads back every message with a valid command and a
  nonnegative jid, whatever its data, when the helpers keep the contract `Helpers.Lawful`.
-/

namespace Jaws

variable {W : Type}

/-- What `wsmsg.go` uses of package `what`, of `Jid` and of `strconv.IsPrint`'s tables. -/
structure Helpers (W : Type) where
  /-- `What.String()`. -/
  whatString : W → Bytes
  /-- `what.Parse(s)`. -/
  whatParse : Bytes → W
  /-- `What.IsValid()`. -/
  isValid : W → Bool
  /-- The zero `what.What`. -/
  whatZero : W
  /-- The bytes `Jid.Append(b)` appends to `b`. -/
  jidAppend : Int → Bytes
  /-- `JidParseString(s)`. -/
  jidParseString : Bytes → Int
  /-- The answer of `strconv.IsPrint` above U+00FF. -/
  printTable : Nat → Bool

/-- `wsMsg`: a message to or from a WebSocket. -/
structure WsMsg (W : Type) where
  data : Bytes
  jid : Int
  what : W
  deriving DecidableEq

/-- `wsMsg{}`. -/
def WsMsg.zero (H : Helpers W) : WsMsg W := ⟨[], 0, H.whatZero⟩

/-- Commands spelt in capital letters, decimal jids, and every rune above U+00FF printable. -/
def letterHelpers : Helpers Bytes where
  whatString w := w
  whatParse s := s
  isValid w := !w.isEmpty && w.all fun c => 0x41 ≤ c.toNat && c.toNat ≤ 0x5A
  whatZero := []
  jidAppend j := (Nat.digits 10 j.toNat).reverse.map fun d => UInt8.ofNat (0x30 + d)
  jidParseString s := (Nat.ofDigits 10 (s.map fun c => c.toNat - 0x30).reverse : Nat)
  printTable _ := true

/-! ## `wsMsg.Append` -/

/-- `wsMsg.Append(b)`. -/
def WsMsg.append (H : Helpers W) (m : WsMsg W) (b : Bytes) : Bytes :=
  let b := b ++ H.whatString m.what ++ [0x09]
  let b := if 0 ≤ m.jid then (if 0 < m.jid then b ++ H.jidAppend m.jid else b) ++ [0x09] else b
  let b := if 0 < m.data.length then appendQuote H.printTable b m.data else b
  b ++ [0x0A]

/-- The text of the jid field: `Jid.Append`'s for a positive jid, nothing for zero. -/
def jidText (H : Helpers W) (j : Int) : Bytes := if 0 < j then H.jidAppend j else []

/-- The text of the data field: the quoted data, nothing for empty data. -/
def dataText (H : Helpers W) (d : Bytes) : Bytes :=
  if 0 < d.length then 0x22 :: quoteBody H.printTable d ++ [0x22] else []

theorem append_of_nonneg (H : Helpers W) {m : WsMsg W} (h : 0 ≤ m.jid) (b : Bytes) :
    m.append H b = b ++ (H.whatString m.what ++ 0x09 ::
      (jidText H m.jid ++ 0x09 :: (dataText H m.data ++ [0x0A]))) := by
  unfold WsMsg.append jidText dataText appendQuote
  split_ifs <;> simp [h]

theorem append_of_neg (H : Helpers W) {m : WsMsg W} (h : m.jid < 0) (b : Bytes) :
    m.append H b = b ++ (H.whatString m.what ++ 0x09 :: (dataText H m.data ++ [0x0A])) := by
  simp only [WsMsg.append, dataText, appendQuote, show ¬ 0 ≤ m.jid by omega, if_false]
  split_ifs <;> simp

theorem dataText_eq_nil {H : Helpers W} {d : Bytes} : dataText H d = [] ↔ d = [] := by
  cases d <;> simp [dataText]

theorem le_of_mem_dataText {H : Helpers W} {d : Bytes} {b : UInt8} (hb : b ∈ dataText H d) :
    0x20 ≤ b.toNat := by
  unfold dataText at hb
  split_ifs at hb
  · simp only [List.cons_append, List.mem_cons, List.mem_append, List.not_mem_nil, or_false] at hb
    rcases hb with rfl | hb | rfl
    · decide
    · exact le_of_mem_quoteBody _ _ hb
    · decide
  · simp at hb

theorem tab_not_mem_dataText (H : Helpers W) (d : Bytes) : 0x09 ∉ dataText H d :=
  fun h => absurd (le_of_mem_dataText h) (by decide)

theorem newline_not_mem_dataText (H : Helpers W) (d : Bytes) : 0x0A ∉ dataText H d :=
  fun h => absurd (le_of_mem_dataText h) (by decide)

/-- **The shape of a frame**: one final newline, one tab per field, and no separator from the
payload. -/
theorem append_frame (H : Helpers W) (m : WsMsg W) (b : Bytes)
    (hw : 0x09 ∉ H.whatString m.what ∧ 0x0A ∉ H.whatString m.what)
    (hj : 0x09 ∉ H.jidAppend m.jid ∧ 0x0A ∉ H.jidAppend m.jid)
    (hne : 0 < m.jid → H.jidAppend m.jid ≠ []) :
    ∃ f, m.append H b = b ++ f ∧ (∃ g, f = g ++ [0x0A] ∧ 0x0A ∉ g) ∧
      f.count 0x09 = (if 0 ≤ m.jid then 2 else 1) ∧
      (0 ≤ m.jid → ∃ w x y, f = w ++ 0x09 :: (x ++ 0x09 :: (y ++ [0x0A])) ∧
        (x = [] ↔ m.jid = 0) ∧ (y = [] ↔ m.data = [])) ∧
      (m.jid < 0 → ∃ w y, f = w ++ 0x09 :: (y ++ [0x0A]) ∧ (y = [] ↔ m.data = [])) := by
  have hx : 0x09 ∉ jidText H m.jid ∧ 0x0A ∉ jidText H m.jid := by
    unfold jidText; split_ifs <;> simp [hj]
  have hd := tab_not_mem_dataText H m.data
  have hd' := newline_not_mem_dataText H m.data
  by_cases h : 0 ≤ m.jid
  · refine ⟨_, append_of_nonneg H h b,
      ⟨H.whatString m.what ++ 0x09 :: (jidText H m.jid ++ 0x09 :: dataText H m.data), by simp, ?_⟩, ?_,
      fun _ => ⟨_, _, _, rfl, ?_, dataText_eq_nil⟩, fun h' => absurd h (by omega)⟩
    · simp [hw.2, hx.2, hd']
    · simp [List.count_eq_zero_of_not_mem, hw.1, hx.1, hd, h]
    · unfold jidText
      split_ifs with hp
      · exact ⟨fun he => absurd he (hne hp), fun he => absurd he (by omega)⟩
      · exact ⟨fun _ => by omega, fun _ => rfl⟩
  · refine ⟨_, append_of_neg H (by omega) b,
      ⟨H.whatString m.what ++ 0x09 :: dataText H m.data, by simp, ?_⟩, ?_, fun h' => absurd h' h,
      fun _ => ⟨_, _, rfl, dataText_eq_nil⟩⟩
    · simp [hw.2, hd']
    · simp [List.count_eq_zero_of_not_mem, hw.1, hd, h]

theorem append_frame_letters :
    (0x09 ∉ letterHelpers.whatString [0x41] ∧ 0x0A ∉ letterHelpers.whatString [0x41]) ∧
    (0x09 ∉ letterHelpers.jidAppend 7 ∧ 0x0A ∉ letterHelpers.jidAppend 7) ∧
    (0 < (7 : Int) → letterHelpers.jidAppend 7 ≠ []) ∧
    ∃ f, (⟨[0x09, 0x0A], 7, [0x41]⟩ : WsMsg Bytes).append letterHelpers [0x2E] = [0x2E] ++ f ∧
      (∃ g, f = g ++ [0x0A] ∧ 0x0A ∉ g) ∧ f.count 0x09 = (if (0 : Int) ≤ 7 then 2 else 1) ∧
      ((0 : Int) ≤ 7 → ∃ w x y, f = w ++ 0x09 :: (x ++ 0x09 :: (y ++ [0x0A])) ∧
        (x = [] ↔ (7 : Int) = 0) ∧ (y = [] ↔ ([0x09, 0x0A] : Bytes) = [])) ∧
      ((7 : Int) < 0 → ∃ w y, f = w ++ 0x09 :: (y ++ [0x0A]) ∧ (y = [] ↔ ([0x09, 0x0A] : Bytes) = [])) := by
  have hw : 0x09 ∉ letterHelpers.whatString [0x41] ∧ 0x0A ∉ letterHelpers.whatString [0x41] := by
    decide
  have hj : 0x09 ∉ letterHelpers.jidAppend 7 ∧ 0x0A ∉ letterHelpers.jidAppend 7 := by
    simp [letterHelpers]
  have hne : 0 < (7 : Int) → letterHelpers.jidAppend 7 ≠ [] := fun _ => by simp [letterHelpers]
  exact ⟨hw, hj, hne, append_frame letterHelpers ⟨[0x09, 0x0A], 7, [0x41]⟩ [0x2E] hw hj hne⟩

/-! ## `wsParse` -/

/-- The run-time panics of the code below: an index or a slice out of range. -/
inductive Panic
  | indexOutOfRange
  | sliceOutOfRange
  deriving DecidableEq, Repr

/-- `s[i]`. -/
def index (s : Bytes) (i : Nat) : Except Panic UInt8 :=
  match s[i]? with
  | some b => .ok b
  | none => .error .indexOutOfRange

/-- `s[lo:hi]`. -/
def slice (s : Bytes) (lo hi : Nat) : Except Panic Bytes :=
  if lo ≤ hi ∧ hi ≤ s.length then .ok ((s.take hi).drop lo) else .error .sliceOutOfRange

/-- `wsParse(txt)`. -/
def wsParse (H : Helpers W) (txt : Bytes) : Except Panic (WsMsg W × Bool) := do
  let txt := toValidUTF8 [] false txt
  if 0 < txt.length then
    if (← index txt (txt.length - 1)) = 0x0A then
      match indexByte txt 0x09 with
      | some nl1 =>
        match indexByte (← slice txt (nl1 + 1) txt.length) 0x09 with
        | some nl2 =>
          let nl2 := nl2 + nl1 + 1
          let wht := H.whatParse (← slice txt 0 nl1)
          if H.isValid wht then
            let data ← slice txt (nl2 + 1) (txt.length - 1)
            let data? := if (← index txt (nl2 + 1)) = 0x22 then unquote data else some data
            match data? with
            | some data =>
              return ({ data, jid := H.jidParseString (← slice txt (nl1 + 1) nl2), what := wht }, true)
            | none => return (WsMsg.zero H, false)
          else return (WsMsg.zero H, false)
        | none => return (WsMsg.zero H, false)
      | none => return (WsMsg.zero H, false)
    else return (WsMsg.zero H, false)
  else return (WsMsg.zero H, false)

@[simp] theorem ok_bind {α β : Type} (a : α) (f : α → Except Panic β) :
    (Except.ok a >>= f : Except Panic β) = f a := rfl

theorem index_eq {s p r : Bytes} {b : UInt8} {i : Nat} (hs : s = p ++ b :: r) (hi : i = p.length) :
    index s i = .ok b := by
  subst hs hi
  rw [index, List.getElem?_append_right (le_refl _)]
  simp

theorem slice_eq {s p u r : Bytes} {lo hi : Nat} (hs : s = p ++ (u ++ r)) (hlo : lo = p.length)
    (hhi : hi = p.length + u.length) : slice s lo hi = .ok u := by
  subst hs hlo hhi
  simp [slice, List.take_append_eq_append_take, List.drop_append_eq_append_drop]

/-- `t` is a frame with the fields `a`, `x` and `y`: `a` before its first tab, `x` between its
first two tabs, `y` between the second tab and the newline `t` ends in. -/
def Fields (t a x y : Bytes) : Prop :=
  t = a ++ 0x09 :: (x ++ 0x09 :: (y ++ [0x0A])) ∧ 0x09 ∉ a ∧ 0x09 ∉ x

theorem Fields.unique {t a x y a' x' y' : Bytes} (h : Fields t a x y) (h' : Fields t a' x' y') :
    a = a' ∧ x = x' ∧ y = y' := by
  obtain ⟨ht, ha, hx⟩ := h
  obtain ⟨ht', ha', hx'⟩ := h'
  have hla : a.length = a'.length := by
    have := indexByte_append_cons ha (x ++ 0x09 :: (y ++ [0x0A]))
    rw [← ht, ht', indexByte_append_cons ha'] at this
    exact (Option.some.inj this).symm
  obtain ⟨rfl, h1⟩ := List.append_inj (ht.symm.trans ht') hla
  have h1 := (List.cons.inj h1).2
  have hlx : x.length = x'.length := by
    have := indexByte_append_cons hx (y ++ [0x0A])
    rw [h1, indexByte_append_cons hx'] at this
    exact (Option.some.inj this).symm
  obtain ⟨rfl, h2⟩ := List.append_inj h1 hlx
  exact ⟨rfl, rfl, (List.append_inj' (List.cons.inj h2).2 rfl).1⟩

/-- The data field as `wsParse` reads it: unquoted when it begins with `"`, `none` when
`strconv.Unquote` rejects it. -/
def fieldData (y : Bytes) : Option Bytes := if y.head? = some 0x22 then unquote y else some y

/-- What `wsParse` returns for a frame with the fields `a`, `x` and `y`. -/
def readFields (H : Helpers W) (a x y : Bytes) : WsMsg W × Bool :=
  if H.isValid (H.whatParse a) then
    match fieldData y with
    | some d => (⟨d, H.jidParseString x, H.whatParse a⟩, true)
    | none => (WsMsg.zero H, false)
  else (WsMsg.zero H, false)

theorem wsParse_of_fields (H : Helpers W) {txt a x y : Bytes}
    (hf : Fields (toValidUTF8 [] false txt) a x y) : wsParse H txt = .ok (readFields H a x y) := by
  obtain ⟨ht, ha, hx⟩ := hf
  have hlen : (toValidUTF8 [] false txt).length = a.length + x.length + y.length + 3 := by
    rw [ht]; simp; omega
  have hlast : index (toValidUTF8 [] false txt) ((toValidUTF8 [] false txt).length - 1) = .ok 0x0A :=
    index_eq (p := a ++ 0x09 :: (x ++ 0x09 :: y)) (r := []) (by simp [ht])
      (by simp [hlen]; omega)
  have hrest : slice (toValidUTF8 [] false txt) (a.length + 1) (toValidUTF8 [] false txt).length =
      .ok (x ++ 0x09 :: (y ++ [0x0A])) :=
    slice_eq (p := a ++ [0x09]) (u := x ++ 0x09 :: (y ++ [0x0A])) (r := []) (by simp [ht]) (by simp)
      (by simp [hlen]; omega)
  have hwhat : slice (toValidUTF8 [] false txt) 0 a.length = .ok a :=
    slice_eq (p := []) (u := a) (r := 0x09 :: (x ++ 0x09 :: (y ++ [0x0A]))) (by simp [ht]) rfl
      (by simp)
  have hdata : slice (toValidUTF8 [] false txt) (x.length + a.length + 1 + 1)
      ((toValidUTF8 [] false txt).length - 1) = .ok y :=
    slice_eq (p := a ++ 0x09 :: (x ++ [0x09])) (u := y) (r := [0x0A]) (by simp [ht])
      (by simp; omega) (by simp [hlen]; omega)
  have hfirst : index (toValidUTF8 [] false txt) (x.length + a.length + 1 + 1) =
      .ok ((y ++ [0x0A]).headD 0) := by
    exact index_eq (p := a ++ 0x09 :: (x ++ [0x09])) (r := (y ++ [0x0A]).tail)
      (by cases y <;> simp [ht]) (by simp; omega)
  have hjid : slice (toValidUTF8 [] false txt) (a.length + 1) (x.length + a.length + 1) = .ok x :=
    slice_eq (p := a ++ [0x09]) (u := x) (r := 0x09 :: (y ++ [0x0A])) (by simp [ht]) (by simp)
      (by simp; omega)
  have hfirst' : ((y ++ [0x0A]).headD 0 = 0x22) ↔ y.head? = some 0x22 := by
    cases y <;> simp
  have hi1 : indexByte (toValidUTF8 [] false txt) 0x09 = some a.length := by
    rw [ht]; exact indexByte_append_cons ha _
  have hi2 : indexByte (x ++ 0x09 :: (y ++ [0x0A])) 0x09 = some x.length :=
    indexByte_append_cons hx _
  simp only [wsParse, hlast, hrest, hwhat, hdata, hfirst, hjid, hi1, hi2, ok_bind,
    show 0 < (toValidUTF8 [] false txt).length by omega, if_true, hfirst', ↓reduceIte]
  unfold readFields fieldData
  split_ifs <;> (try split) <;> rfl

theorem wsParse_of_not_fields (H : Helpers W) {txt : Bytes}
    (h : ∀ a x y, ¬ Fields (toValidUTF8 [] false txt) a x y) :
    wsParse H txt = .ok (WsMsg.zero H, false) := by
  simp only [wsParse]
  generalize toValidUTF8 [] false txt = t at h ⊢
  rcases List.eq_nil_or_concat t with rfl | ⟨u, c, rfl⟩
  · rfl
  have hlast : index (u.concat c) ((u.concat c).length - 1) = .ok c :=
    index_eq (p := u) (r := []) (by simp) (by simp)
  simp only [hlast, ok_bind, show 0 < (u.concat c).length by simp, if_true]
  by_cases hc : c = 0x0A
  · subst hc
    simp only [if_true]
    cases h1 : indexByte (u.concat 0x0A) 0x09 with
    | none => rfl
    | some nl1 =>
      obtain ⟨a, b, hab, ha, rfl⟩ := indexByte_eq_some h1
      dsimp only
      rw [slice_eq (s := u.concat 0x0A) (p := a ++ [0x09]) (u := b) (r := []) (by rw [hab]; simp)
        (by simp) (by rw [hab]; simp; omega)]
      simp only [ok_bind]
      cases h2 : indexByte b 0x09 with
      | none => rfl
      | some nl2 =>
        obtain ⟨x, c, rfl, hx, rfl⟩ := indexByte_eq_some h2
        rcases List.eq_nil_or_concat c with rfl | ⟨y, d, rfl⟩
        · have := (List.append_inj' (show u ++ [0x0A] = (a ++ 0x09 :: x) ++ [0x09] by
            simpa using hab) rfl).2
          simp at this
        · have := (List.append_inj' (show u ++ [0x0A] = (a ++ 0x09 :: (x ++ 0x09 :: y)) ++ [d] by
            simpa using hab) rfl).2
          simp only [List.cons.injEq, and_true] at this
          subst this
          exact absurd ⟨by simpa using hab, ha, hx⟩ (h a x y)
  · simp only [hc, if_false]
    rfl

theorem readFields_snd {H : Helpers W} {a x y : Bytes} :
    (readFields H a x y).2 = true ↔ H.isValid (H.whatParse a) ∧ fieldData y ≠ none := by
  unfold readFields
  split_ifs with hv <;> cases fieldData y <;> simp [hv]

theorem readFields_of_some {H : Helpers W} {a x y d : Bytes} (hv : H.isValid (H.whatParse a))
    (hd : fieldData y = some d) :
    readFields H a x y = (⟨d, H.jidParseString x, H.whatParse a⟩, true) := by
  simp [readFields, hv, hd]

theorem readFields_of_false {H : Helpers W} {a x y : Bytes} (h : (readFields H a x y).2 = false) :
    (readFields H a x y).1 = WsMsg.zero H := by
  unfold readFields at h ⊢
  split_ifs at h ⊢ <;> cases hd : fieldData y <;> simp_all

/-- **`wsParse` never panics, and reads exactly the well-formed frames.** -/
theorem wsParse_spec (H : Helpers W) (txt : Bytes) :
    ∃ r, wsParse H txt = .ok r ∧
      (r.2 = true ↔ ∃ a x y, Fields (toValidUTF8 [] false txt) a x y ∧
        H.isValid (H.whatParse a) ∧ fieldData y ≠ none) ∧
      (∀ a x y d, Fields (toValidUTF8 [] false txt) a x y → fieldData y = some d → r.2 = true →
        r.1 = ⟨d, H.jidParseString x, H.whatParse a⟩) ∧
      (r.2 = false → r.1 = WsMsg.zero H) := by
  by_cases hf : ∃ a x y, Fields (toValidUTF8 [] false txt) a x y
  · obtain ⟨a, x, y, hf⟩ := hf
    refine ⟨_, wsParse_of_fields H hf, ⟨fun h => ⟨a, x, y, hf, readFields_snd.1 h⟩, ?_⟩,
      fun a' x' y' d hf' hd h => ?_, readFields_of_false⟩
    · rintro ⟨a', x', y', hf', hv⟩
      obtain ⟨rfl, rfl, rfl⟩ := hf.unique hf'
      exact readFields_snd.2 hv
    · obtain ⟨rfl, rfl, rfl⟩ := hf.unique hf'
      rw [readFields_of_some (readFields_snd.1 h).1 hd]
  · push_neg at hf
    refine ⟨_, wsParse_of_not_fields H fun a x y => hf a x y, ?_, by simp, fun _ => rfl⟩
    simp only [Bool.false_eq_true, false_iff, not_exists, not_and]
    exact fun a x y h => absurd h (hf a x y)

/-! ## What `wsParse` hands on -/

theorem utf8_fields {txt a x y : Bytes} (hf : Fields (toValidUTF8 [] false txt) a x y) :
    Utf8 a ∧ Utf8 x ∧ Utf8 y := by
  have hu := utf8_toValidUTF8 .nil false txt
  rw [hf.1] at hu
  obtain ⟨ha, hu⟩ := Utf8.split_ascii (by decide) hu
  obtain ⟨hx, hu⟩ := Utf8.split_ascii (by decide) hu
  exact ⟨ha, hx, (Utf8.split_ascii (c := []) (by decide) hu).1⟩

/-- **What `wsParse` accepts is well-formed UTF-8, bar quoted data.** -/
theorem wsParse_data_utf8 (H : Helpers W) {txt : Bytes} {m : WsMsg W}
    (h : wsParse H txt = .ok (m, true)) :
    Utf8 m.data ∨ ∃ a x y, Fields (toValidUTF8 [] false txt) a x y ∧ y.head? = some 0x22 ∧
      unquote y = some m.data := by
  by_cases hf : ∃ a x y, Fields (toValidUTF8 [] false txt) a x y
  · obtain ⟨a, x, y, hf⟩ := hf
    have hr : readFields H a x y = (m, true) :=
      Except.ok.inj ((wsParse_of_fields H hf).symm.trans h)
    obtain ⟨hv, hd⟩ := readFields_snd.1 (congrArg Prod.snd hr)
    obtain ⟨d, hd⟩ := Option.ne_none_iff_exists'.1 hd
    rw [readFields_of_some hv hd] at hr
    obtain rfl : d = m.data := congrArg (WsMsg.data ∘ Prod.fst) hr
    unfold fieldData at hd
    split_ifs at hd with hq
    · exact .inr ⟨a, x, y, hf, hq, hd⟩
    · exact .inl (Option.some.inj hd ▸ (utf8_fields hf).2.2)
  · push_neg at hf
    rw [wsParse_of_not_fields H fun a x y => hf a x y] at h
    cases h

theorem wsParse_data_utf8_letters :
    wsParse letterHelpers [0x41, 0x09, 0x09, 0x61, 0x0A] = .ok (⟨[0x61], 0, [0x41]⟩, true) ∧
      (Utf8 [0x61] ∨ ∃ a x y, Fields (toValidUTF8 [] false [0x41, 0x09, 0x09, 0x61, 0x0A]) a x y ∧
        y.head? = some 0x22 ∧ unquote y = some [0x61]) :=
  have h : wsParse letterHelpers [0x41, 0x09, 0x09, 0x61, 0x0A] =
      .ok (⟨[0x61], 0, [0x41]⟩, true) := by
    rw [wsParse_of_fields letterHelpers (a := [0x41]) (x := []) (y := [0x61])
      ⟨by rw [toValidUTF8_of_utf8 (Utf8.of_ascii (by decide))]; rfl, by decide, by decide⟩]
    rfl
  ⟨h, wsParse_data_utf8 letterHelpers h⟩

/-! ## The round trip -/

/-- The contract the round trip needs of the helpers: `what.Parse` inverts `What.String` on
valid commands, whose text is well-formed and has no tab; `JidParseString` inverts
`Jid.Append` for positive jids, whose text is well-formed and has no tab, and reads the empty
field as `0`. -/
structure Helpers.Lawful (H : Helpers W) : Prop where
  parse_string : ∀ w, H.isValid w → H.whatParse (H.whatString w) = w
  tab_not_mem_string : ∀ w, H.isValid w → 0x09 ∉ H.whatString w
  utf8_string : ∀ w, H.isValid w → Utf8 (H.whatString w)
  parse_jid : ∀ j, 0 < j → H.jidParseString (H.jidAppend j) = j
  parse_empty : H.jidParseString [] = 0
  tab_not_mem_jid : ∀ j, 0 < j → 0x09 ∉ H.jidAppend j
  utf8_jid : ∀ j, 0 < j → Utf8 (H.jidAppend j)

theorem letterHelpers_lawful : letterHelpers.Lawful := by
  have hletter : ∀ w, letterHelpers.isValid w → ∀ c ∈ w, 0x41 ≤ c.toNat ∧ c.toNat ≤ 0x5A := by
    intro w hw c hc
    simp only [letterHelpers, Bool.and_eq_true, List.all_eq_true, decide_eq_true_eq] at hw
    exact hw.2 c hc
  have hdigit : ∀ j : Int, ∀ c ∈ letterHelpers.jidAppend j, 0x30 ≤ c.toNat ∧ c.toNat < 0x3A := by
    intro j c hc
    simp only [letterHelpers, List.mem_map, List.mem_reverse] at hc
    obtain ⟨d, hd, rfl⟩ := hc
    have := Nat.digits_lt_base (by decide) hd
    simp only [toNat_ofNat]
    omega
  refine ⟨fun _ _ => rfl, fun w hw h => absurd (hletter w hw _ h).1 (by decide),
    fun w hw => .of_ascii fun c hc => by have := hletter w hw c hc; omega, ?_, rfl,
    fun j _ h => absurd (hdigit j _ h).1 (by decide),
    fun j _ => .of_ascii fun c hc => by have := hdigit j c hc; omega⟩
  intro j hj
  have hd : ∀ d ∈ Nat.digits 10 j.toNat, (UInt8.ofNat (0x30 + d)).toNat - 0x30 = d := by
    intro d hd
    have := Nat.digits_lt_base (by decide) hd
    simp only [toNat_ofNat]
    omega
  simp only [letterHelpers, List.map_reverse, List.map_map, List.reverse_reverse, Function.comp_def]
  rw [List.map_congr_left hd, List.map_id', Nat.ofDigits_digits]
  omega

theorem utf8_dataText (H : Helpers W) (d : Bytes) : Utf8 (dataText H d) := by
  unfold dataText
  split_ifs
  · rw [List.cons_append]
    exact .cons_ascii (by decide) ((utf8_quoteBody _ _).append (.cons_ascii (by decide) .nil))
  · exact .nil

theorem fieldData_dataText (H : Helpers W) (d : Bytes) : fieldData (dataText H d) = some d := by
  unfold dataText fieldData
  by_cases h : 0 < d.length
  · simpa [h, appendQuote] using unquote_appendQuote H.printTable d
  · obtain rfl : d = [] := List.eq_nil_of_length_eq_zero (by omega)
    rfl

/-- **The round trip**: `wsParse` reads back what `Append` writes. -/
theorem wsParse_append (H : Helpers W) (hH : H.Lawful) (m : WsMsg W) (hv : H.isValid m.what)
    (hj : 0 ≤ m.jid) : wsParse H (m.append H []) = .ok (m, true) := by
  have hx : 0x09 ∉ jidText H m.jid ∧ Utf8 (jidText H m.jid) ∧
      H.jidParseString (jidText H m.jid) = m.jid := by
    unfold jidText
    split_ifs with hp
    · exact ⟨hH.tab_not_mem_jid _ hp, hH.utf8_jid _ hp, hH.parse_jid _ hp⟩
    · exact ⟨by simp, .nil, by rw [hH.parse_empty]; omega⟩
  have hu : Utf8 (m.append H []) := by
    rw [append_of_nonneg H hj, List.nil_append]
    exact (hH.utf8_string _ hv).append (.cons_ascii (by decide) (hx.2.1.append
      (.cons_ascii (by decide) ((utf8_dataText H m.data).append (.cons_ascii (by decide) .nil)))))
  have hf : Fields (toValidUTF8 [] false (m.append H [])) (H.whatString m.what)
      (jidText H m.jid) (dataText H m.data) := by
    rw [toValidUTF8_of_utf8 hu, append_of_nonneg H hj, List.nil_append]
    exact ⟨rfl, hH.tab_not_mem_string _ hv, hx.1⟩
  rw [wsParse_of_fields H hf, readFields_of_some (by rw [hH.parse_string _ hv]; exact hv)
    (fieldData_dataText H m.data), hx.2.2, hH.parse_string _ hv]

theorem wsParse_append_letters :
    letterHelpers.Lawful ∧ letterHelpers.isValid [0x41, 0x42] ∧ (0 : Int) ≤ 7 ∧
      wsParse letterHelpers
          ((⟨[0x09, 0x0A, 0x22, 0xFF], 7, [0x41, 0x42]⟩ : WsMsg Bytes).append letterHelpers []) =
        .ok (⟨[0x09, 0x0A, 0x22, 0xFF], 7, [0x41, 0x42]⟩, true) :=
  ⟨letterHelpers_lawful, rfl, by decide,
    wsParse_append letterHelpers letterHelpers_lawful _ rfl (by decide)⟩

end Jaws
