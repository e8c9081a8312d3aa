import Jaws.Utf8
import Mathlib.Tactic.Ring

/-!
# Quoting and unquoting as `strconv` does it

`wsMsg.Append` writes a message's payload with `strconv.AppendQuote`, and `wsParse` reads it
back with `strconv.Unquote`. Both are modelled byte for byte on `Bytes`, as Go 1.18 and later
write them:

* `escapedRune`, `quoteBody`, `appendQuote`: `appendEscapedRune` and the loop of
  `appendQuotedWith`, for a `"` quote and neither `ASCIIonly` nor `graphicOnly`; `isPrint` is
  `strconv.IsPrint`, its tables above U+00FF being the parameter `table`;
* `unquoteChar`, `unquoteLoop`, `unquote`: `strconv.UnquoteChar` and `strconv.Unquote`, with
  the escape-free fast path of the source;
* `atoi`: `strconv.Atoi`.

The main result is **`unquote_appendQuote`**: `Unquote` inverts `AppendQuote` on every byte
string, whatever the printability table. Along the way, `le_of_mem_quoteBody` and
`utf8_quoteBody` show that a quoted body has no control byte and is valid UTF-8, which the frame
codec needs. **`unquote_eq_unquoteByLoop`** shows that the fast path of `Unquote` gives the
answer of its general loop, `unquoteByLoop`, on every input.
-/

namespace Jaws

/-! ## Hexadecimal digits -/

/-- `lowerhex[d]`, for `d < 16`. -/
def hexDigit (d : Nat) : UInt8 := if d < 10 then UInt8.ofNat (0x30 + d) else UInt8.ofNat (0x57 + d)

/-- The `n` lowest hexadecimal digits of `r`, the most significant first, as the source's
`lowerhex[r>>uint(s)&0xF]` for `s` from `4 * (n - 1)` down to `0`. -/
def hexDigits : Nat → Nat → Bytes
  | 0, _ => []
  | n + 1, r => hexDigit (r / 16 ^ n % 16) :: hexDigits n r

/-- `strconv.unhex`. -/
def unhex (c : UInt8) : Option Nat :=
  if 0x30 ≤ c.toNat ∧ c.toNat ≤ 0x39 then some (c.toNat - 0x30)
  else if 0x61 ≤ c.toNat ∧ c.toNat ≤ 0x66 then some (c.toNat - 0x61 + 10)
  else if 0x41 ≤ c.toNat ∧ c.toNat ≤ 0x46 then some (c.toNat - 0x41 + 10)
  else none

/-- The value of the digits `s` read onto `v` as the source's `v = v<<4 | x`. -/
def hexValue (v : Nat) : Bytes → Option Nat
  | [] => some v
  | c :: s => (unhex c).bind fun x => hexValue (v * 16 + x) s

theorem hexDigit_toNat {d : Nat} (h : d < 16) :
    (hexDigit d).toNat = if d < 10 then 0x30 + d else 0x57 + d := by
  unfold hexDigit; split_ifs <;> simp <;> omega

theorem unhex_hexDigit {d : Nat} (h : d < 16) : unhex (hexDigit d) = some d := by
  have := hexDigit_toNat h
  unfold unhex
  split_ifs at this <;> rw [this] <;>
    simp (disch := omega) only [if_pos, if_neg, Option.some.injEq] <;> omega

theorem length_hexDigits (n r : Nat) : (hexDigits n r).length = n := by
  induction n with
  | zero => rfl
  | succ n ih => simp [hexDigits, ih]

theorem hexValue_hexDigits (n v r : Nat) :
    hexValue v (hexDigits n r) = some (v * 16 ^ n + r % 16 ^ n) := by
  induction n generalizing v with
  | zero => simp [hexDigits, hexValue, Nat.mod_one]
  | succ n ih =>
    rw [hexDigits, hexValue, unhex_hexDigit (Nat.mod_lt _ (by decide)), Option.some_bind, ih,
      Nat.mod_pow_succ, Nat.pow_succ]
    congr 1; ring

theorem mem_hexDigits {n r : Nat} {b : UInt8} (hb : b ∈ hexDigits n r) :
    0x30 ≤ b.toNat ∧ b.toNat < 0x80 := by
  induction n with
  | zero => simp [hexDigits] at hb
  | succ n ih =>
    rcases List.mem_cons.1 hb with rfl | hb
    · rw [hexDigit_toNat (Nat.mod_lt _ (by decide))]; split_ifs <;> omega
    · exact ih hb

/-! ## `strconv.AppendQuote` -/

/-- `strconv.IsPrint`. Up to U+00FF the source decides by the Latin-1 test written out here;
above, by its `isPrint16`/`isNotPrint16`/`isPrint32`/`isNotPrint32` tables, whose answer is
`table r`. -/
def isPrint (table : Nat → Bool) (r : Nat) : Bool :=
  if r ≤ 0xFF then (0x20 ≤ r && r ≤ 0x7E) || (0xA1 ≤ r && r != 0xAD) else table r

/-- The letters of the one-letter escapes `appendEscapedRune` writes for `\a \b \f \n \r \t \v`. -/
def escapeLetter (r : Nat) : Option UInt8 :=
  if r = 0x07 then some 0x61
  else if r = 0x08 then some 0x62
  else if r = 0x0C then some 0x66
  else if r = 0x0A then some 0x6E
  else if r = 0x0D then some 0x72
  else if r = 0x09 then some 0x74
  else if r = 0x0B then some 0x76
  else none

theorem escapeLetter_some {r : Nat} {l : UInt8} (h : escapeLetter r = some l) :
    r < 0x20 ∧ 0x61 ≤ l.toNat ∧ l.toNat < 0x80 := by
  unfold escapeLetter at h
  repeat' split at h
  all_goals first | (cases h; subst_vars; exact ⟨by omega, by decide, by decide⟩) | cases h

/-- The bytes `appendEscapedRune(buf, r, '"', false, false)` appends. -/
def escapedRune (table : Nat → Bool) (r : Nat) : Bytes :=
  if r = 0x22 ∨ r = 0x5C then 0x5C :: encodeRune r
  else if isPrint table r then encodeRune r
  else match escapeLetter r with
    | some l => [0x5C, l]
    | none =>
      if r < 0x20 ∨ r = 0x7F then 0x5C :: 0x78 :: hexDigits 2 (r % 256)
      else
        let r := if validRune r then r else runeError
        if r < 0x10000 then 0x5C :: 0x75 :: hexDigits 4 r else 0x5C :: 0x55 :: hexDigits 8 r

/-- The bytes the loop of `appendQuotedWith` writes between the quotes: an ill-formed byte as
`\x` and its two digits, every rune as `escapedRune` writes it. -/
def quoteBody (table : Nat → Bool) : Bytes → Bytes
  | [] => []
  | c :: s =>
    if c.toNat < 0x80 then escapedRune table c.toNat ++ quoteBody table s
    else
      have := decodeRune_width c s
      if (decodeRune (c :: s)).2 = 1 ∧ (decodeRune (c :: s)).1 = runeError then
        0x5C :: 0x78 :: hexDigits 2 c.toNat ++ quoteBody table s
      else
        escapedRune table (decodeRune (c :: s)).1 ++
          quoteBody table ((c :: s).drop (decodeRune (c :: s)).2)
termination_by s => s.length
decreasing_by all_goals simp_wf <;> omega

/-- `strconv.AppendQuote(dst, s)`. -/
def appendQuote (table : Nat → Bool) (dst s : Bytes) : Bytes :=
  dst ++ 0x22 :: quoteBody table s ++ [0x22]

theorem mem_hexEscapeBytes {c : UInt8} {n r : Nat} (hc : 0x20 ≤ c.toNat ∧ c.toNat < 0x80)
    {b : UInt8} (hb : b ∈ (0x5C :: c :: hexDigits n r : Bytes)) : 0x20 ≤ b.toNat ∧ b.toNat < 0x80 := by
  rcases List.mem_cons.1 hb with rfl | hb
  · decide
  rcases List.mem_cons.1 hb with rfl | hb
  · exact hc
  · exact (mem_hexDigits hb).imp (le_trans (by decide)) id

theorem le_of_mem_escapedRune (table : Nat → Bool) (r : Nat) {b : UInt8}
    (hb : b ∈ escapedRune table r) : 0x20 ≤ b.toNat := by
  unfold escapedRune at hb
  by_cases h1 : r = 0x22 ∨ r = 0x5C
  · rw [if_pos h1] at hb
    rcases h1 with rfl | rfl <;> simp [encodeRune] at hb <;> rcases hb with rfl | rfl <;> decide
  rw [if_neg h1] at hb
  by_cases h2 : isPrint table r
  · rw [if_pos h2] at hb
    rcases Nat.lt_or_ge r 0x80 with h | h
    · simp only [encodeRune_of_le (show r ≤ 0x7F by omega), List.mem_singleton] at hb
      simp only [isPrint, show r ≤ 0xFF by omega, if_true, Bool.or_eq_true, Bool.and_eq_true,
        decide_eq_true_eq] at h2
      subst hb; simp; omega
    · exact le_trans (by decide) (le_of_mem_encodeRune h hb)
  rw [if_neg h2] at hb
  cases hl : escapeLetter r with
  | some l =>
    simp only [hl, List.mem_cons, List.mem_singleton, List.not_mem_nil, or_false] at hb
    rcases hb with rfl | rfl
    · decide
    · exact le_trans (by decide) (escapeLetter_some hl).2.1
  | none =>
    simp only [hl] at hb
    split_ifs at hb <;> exact (mem_hexEscapeBytes (by decide) hb).1

theorem le_of_mem_quoteBody (table : Nat → Bool) (s : Bytes) {b : UInt8}
    (hb : b ∈ quoteBody table s) : 0x20 ≤ b.toNat := by
  induction s using quoteBody.induct table with
  | case1 => simp [quoteBody] at hb
  | case2 c s h ih =>
    rw [quoteBody, if_pos h, List.mem_append] at hb
    exact hb.elim (le_of_mem_escapedRune table _) ih
  | case3 c s h _ h' ih =>
    rw [quoteBody, if_neg h, if_pos h'] at hb
    exact (List.mem_append.1 (show b ∈ (0x5C :: 0x78 :: hexDigits 2 c.toNat) ++ quoteBody table s
      from hb)).elim (fun h => (mem_hexEscapeBytes (by decide) h).1) ih
  | case4 c s h _ h' ih =>
    rw [quoteBody, if_neg h, if_neg h', List.mem_append] at hb
    exact hb.elim (le_of_mem_escapedRune table _) ih

theorem utf8_escapedRune (table : Nat → Bool) {r : Nat} (hr : validRune r) :
    Utf8 (escapedRune table r) := by
  have henc : Utf8 (encodeRune r) := by simpa using Utf8.cons hr .nil
  unfold escapedRune
  by_cases h1 : r = 0x22 ∨ r = 0x5C
  · rw [if_pos h1]; exact .cons_ascii (by decide) henc
  rw [if_neg h1]
  by_cases h2 : isPrint table r
  · rw [if_pos h2]; exact henc
  rw [if_neg h2]
  cases hl : escapeLetter r with
  | some l => exact .cons_ascii (by decide) (.cons_ascii (escapeLetter_some hl).2.2 .nil)
  | none =>
    simp only [hl]
    split_ifs <;> exact .of_ascii fun _ hb => (mem_hexEscapeBytes (by decide) hb).2

theorem utf8_quoteBody (table : Nat → Bool) (s : Bytes) : Utf8 (quoteBody table s) := by
  induction s using quoteBody.induct table with
  | case1 => simp only [quoteBody]; exact .nil
  | case2 c s h ih =>
    rw [quoteBody, if_pos h]
    exact (utf8_escapedRune table (validRune_of_lt h)).append ih
  | case3 c s h _ h' ih =>
    rw [quoteBody, if_neg h, if_pos h']
    exact (Utf8.of_ascii fun _ hb => (mem_hexEscapeBytes (by decide) hb).2).append ih
  | case4 c s h _ h' ih =>
    obtain ⟨r, -, hr, -, -, hd⟩ := decodeRune_split (by omega) h'
    rw [quoteBody, if_neg h, if_neg h', hd]
    exact (utf8_escapedRune table hr).append (by rw [← hd]; exact ih)

/-! ## `strconv.Unquote` -/

/-- The one-letter escapes of `UnquoteChar`: `\a \b \f \n \r \t \v`. -/
def simpleEscape (c : UInt8) : Option Nat :=
  if c = 0x61 then some 0x07
  else if c = 0x62 then some 0x08
  else if c = 0x66 then some 0x0C
  else if c = 0x6E then some 0x0A
  else if c = 0x72 then some 0x0D
  else if c = 0x74 then some 0x09
  else if c = 0x76 then some 0x0B
  else none

/-- The number of digits of the escapes `\x`, `\u` and `\U`. -/
def hexWidth (c : UInt8) : Nat := if c = 0x78 then 2 else if c = 0x75 then 4 else 8

/-- The escapes `\x`, `\u` and `\U` of `UnquoteChar`, their letter `c` followed by `s`. -/
def hexEscape (c : UInt8) (s : Bytes) : Option (Nat × Bool × Bytes) :=
  if s.length < hexWidth c then none
  else (hexValue 0 (s.take (hexWidth c))).bind fun v =>
    if c = 0x78 then some (v, false, s.drop (hexWidth c))
    else if validRune v then some (v, true, s.drop (hexWidth c)) else none

theorem hexEscape_hexDigits {c : UInt8} {n r : Nat} (hn : hexWidth c = n) (hr : r < 16 ^ n)
    (rest : Bytes) :
    hexEscape c (hexDigits n r ++ rest) =
      if c = 0x78 then some (r, false, rest)
      else if validRune r then some (r, true, rest) else none := by
  subst hn
  have hl := length_hexDigits (hexWidth c) r
  rw [hexEscape, if_neg (by simp [hl]), List.take_left' hl, hexValue_hexDigits, Nat.mod_eq_of_lt hr,
    Option.some_bind, List.drop_left' hl]
  simp

/-- An octal escape of `UnquoteChar`, its first digit `c` followed by `s`. -/
def octalEscape (c : UInt8) (s : Bytes) : Option (Nat × Bool × Bytes) :=
  match s with
  | d1 :: d2 :: t =>
    if 0x30 ≤ d1.toNat ∧ d1.toNat ≤ 0x37 ∧ 0x30 ≤ d2.toNat ∧ d2.toNat ≤ 0x37 then
      let v := (c.toNat - 0x30) * 64 + (d1.toNat - 0x30) * 8 + (d2.toNat - 0x30)
      if 255 < v then none else some (v, false, t)
    else none
  | _ => none

/-- The escape `\c` of `UnquoteChar`, followed by `s`: its value, whether it is a multibyte
rune, and the tail; `none` is `ErrSyntax`. -/
def unquoteEscape (quote c : UInt8) (s : Bytes) : Option (Nat × Bool × Bytes) :=
  match simpleEscape c with
  | some v => some (v, false, s)
  | none =>
    if c = 0x78 ∨ c = 0x75 ∨ c = 0x55 then hexEscape c s
    else if 0x30 ≤ c.toNat ∧ c.toNat ≤ 0x37 then octalEscape c s
    else if c = 0x5C then some (0x5C, false, s)
    else if (c = 0x27 ∨ c = 0x22) ∧ c = quote then some (c.toNat, false, s)
    else none

theorem hexEscape_tail {c : UInt8} {s rem : Bytes} {v : Nat} {mb : Bool}
    (h : hexEscape c s = some (v, mb, rem)) : rem.length ≤ s.length := by
  unfold hexEscape at h
  split_ifs at h <;> obtain ⟨w, -, hw⟩ := Option.bind_eq_some.1 h <;> (try split_ifs at hw) <;>
    cases hw <;> simp

theorem octalEscape_tail {c : UInt8} {s rem : Bytes} {v : Nat} {mb : Bool}
    (h : octalEscape c s = some (v, mb, rem)) : rem.length ≤ s.length := by
  unfold octalEscape at h
  split at h
  · simp only [] at h
    split_ifs at h
    simp only [Option.some.injEq, Prod.mk.injEq] at h
    obtain ⟨-, -, rfl⟩ := h
    simp only [List.length_cons]; omega
  · cases h

theorem unquoteEscape_tail {quote c : UInt8} {s rem : Bytes} {v : Nat} {mb : Bool}
    (h : unquoteEscape quote c s = some (v, mb, rem)) : rem.length ≤ s.length := by
  unfold unquoteEscape at h
  split at h
  · cases h; exact le_refl _
  · split_ifs at h
    · exact hexEscape_tail h
    · exact octalEscape_tail h
    all_goals (cases h; exact le_refl _)

theorem simpleEscape_escapeLetter {r : Nat} {l : UInt8} (h : escapeLetter r = some l) :
    simpleEscape l = some r ∧ r < 0x20 := by
  unfold escapeLetter at h
  repeat' split at h
  all_goals first | (cases h; subst_vars; exact ⟨rfl, by omega⟩) | cases h

/-- `strconv.UnquoteChar(s, quote)`. -/
def unquoteChar (s : Bytes) (quote : UInt8) : Option (Nat × Bool × Bytes) :=
  match s with
  | [] => none
  | c :: t =>
    if c = quote ∧ (quote = 0x27 ∨ quote = 0x22) then none
    else if 0x80 ≤ c.toNat then some ((decodeRune s).1, true, s.drop (decodeRune s).2)
    else if c ≠ 0x5C then some (c.toNat, false, t)
    else match t with
      | [] => none
      | e :: t => unquoteEscape quote e t

theorem unquoteChar_tail {s rem : Bytes} {quote : UInt8} {v : Nat} {mb : Bool}
    (h : unquoteChar s quote = some (v, mb, rem)) : rem.length < s.length := by
  unfold unquoteChar at h
  split at h
  · cases h
  · rename_i c t
    split_ifs at h
    · have := (decodeRune_width c t).1
      simp only [Option.some.injEq, Prod.mk.injEq] at h
      obtain ⟨-, -, rfl⟩ := h
      simp; omega
    · simp only [Option.some.injEq, Prod.mk.injEq] at h
      obtain ⟨-, -, rfl⟩ := h
      simp
    · split at h
      · cases h
      · have := unquoteEscape_tail h
        simp; omega

/-- The bytes `unquote` appends for a character `UnquoteChar` read: the value as one byte when it
is below `utf8.RuneSelf` or no multibyte rune, else its UTF-8 encoding. -/
def charBytes (r : Nat) (multibyte : Bool) : Bytes :=
  if r < 0x80 ∨ multibyte = false then [UInt8.ofNat r] else encodeRune r

theorem charBytes_of_lt {r : Nat} (h : r < 0x80) (mb : Bool) : charBytes r mb = encodeRune r := by
  simp [charBytes, h, encodeRune_of_le (show r ≤ 0x7F by omega)]

theorem charBytes_true (r : Nat) : charBytes r true = encodeRune r := by
  simp only [charBytes, Bool.true_eq_false, or_false]
  split_ifs with h
  · rw [encodeRune_of_le (by omega)]
  · rfl

theorem unquoteChar_of_ge {c : UInt8} {quote : UInt8} (hq : c ≠ quote) (hc : 0x80 ≤ c.toNat)
    (t : Bytes) : unquoteChar (c :: t) quote =
      some ((decodeRune (c :: t)).1, true, (c :: t).drop (decodeRune (c :: t)).2) := by
  simp [unquoteChar, hq, hc]

theorem unquoteChar_of_lt {c : UInt8} {quote : UInt8} (hq : c ≠ quote) (hc : c.toNat < 0x80)
    (hb : c ≠ 0x5C) (t : Bytes) : unquoteChar (c :: t) quote = some (c.toNat, false, t) := by
  simp [unquoteChar, hq, hb, show ¬ 0x80 ≤ c.toNat by omega]

theorem unquoteChar_escape {quote : UInt8} (hq : (0x5C : UInt8) ≠ quote) (e : UInt8) (t : Bytes) :
    unquoteChar (0x5C :: e :: t) quote = unquoteEscape quote e t := by
  simp [unquoteChar, hq, UInt8.size]

theorem unquoteChar_encodeRune {r : Nat} (hr : validRune r) (h : 0x80 ≤ r) (rest : Bytes) :
    unquoteChar (encodeRune r ++ rest) 0x22 = some (r, true, rest) := by
  obtain ⟨c, t, hct⟩ := List.exists_cons_of_ne_nil (encodeRune_ne_nil r)
  have hc : 0x80 ≤ c.toNat := le_of_mem_encodeRune h (show c ∈ encodeRune r by simp [hct])
  have hdec := decodeRune_encodeRune hr rest
  rw [hct] at hdec ⊢
  rw [List.cons_append, unquoteChar_of_ge (by rintro rfl; exact absurd hc (by decide)) hc,
    ← List.cons_append, hdec, List.drop_left]

/-- **`UnquoteChar` reads back every rune `appendEscapedRune` writes.** -/
theorem unquoteChar_escapedRune (table : Nat → Bool) {r : Nat} (hr : validRune r) (rest : Bytes) :
    ∃ mb, unquoteChar (escapedRune table r ++ rest) 0x22 = some (r, mb, rest) ∧
      charBytes r mb = encodeRune r := by
  by_cases h1 : r = 0x22 ∨ r = 0x5C
  · rw [escapedRune, if_pos h1]
    rcases h1 with rfl | rfl <;> exact ⟨false, rfl, rfl⟩
  rw [escapedRune, if_neg h1]
  by_cases h2 : isPrint table r
  · rw [if_pos h2]
    by_cases h3 : r < 0x80
    · have h4 : 0x20 ≤ r := by
        simp only [isPrint, show r ≤ 0xFF by omega, if_true, Bool.or_eq_true, Bool.and_eq_true,
          decide_eq_true_eq, bne_iff_ne] at h2
        omega
      refine ⟨false, ?_, charBytes_of_lt h3 _⟩
      have hb : (UInt8.ofNat r).toNat = r := by simp; omega
      have hne : ∀ b : UInt8, b.toNat ≠ r → UInt8.ofNat r ≠ b := fun b hb' h => hb' (h ▸ hb)
      rw [encodeRune_of_le (by omega), List.singleton_append,
        unquoteChar_of_lt (hne 0x22 fun h => h1 (.inl h.symm)) (by omega)
          (hne 0x5C fun h => h1 (.inr h.symm)), hb]
    · exact ⟨true, unquoteChar_encodeRune hr (by omega) rest, charBytes_true r⟩
  rw [if_neg h2]
  have hctl : r < 0x80 → r < 0x20 ∨ r = 0x7F := fun h => by
    simp only [isPrint, show r ≤ 0xFF by omega, if_true, Bool.or_eq_true, Bool.and_eq_true,
      decide_eq_true_eq, bne_iff_ne, not_or, not_and] at h2
    omega
  cases hl : escapeLetter r with
  | some l =>
    obtain ⟨hs, hr20⟩ := simpleEscape_escapeLetter hl
    refine ⟨false, ?_, charBytes_of_lt (by omega) _⟩
    rw [List.cons_append, List.cons_append, List.nil_append, unquoteChar_escape (by decide),
      unquoteEscape, hs]
  | none =>
    simp only
    by_cases h5 : r < 0x20 ∨ r = 0x7F
    · rw [if_pos h5]
      refine ⟨false, ?_, charBytes_of_lt (by omega) _⟩
      rw [List.cons_append, List.cons_append, unquoteChar_escape (by decide),
        show unquoteEscape 0x22 0x78 = hexEscape 0x78 from rfl,
        hexEscape_hexDigits (c := 0x78) (n := 2) (r := r % 256) rfl (Nat.mod_lt _ (by decide)),
        Nat.mod_eq_of_lt (by omega)]
      rfl
    rw [if_neg h5]
    have h80 : 0x80 ≤ r := by omega
    refine ⟨true, ?_, charBytes_true r⟩
    simp only [hr, if_true]
    split_ifs with h6
    · rw [List.cons_append, List.cons_append, unquoteChar_escape (by decide),
        show unquoteEscape 0x22 0x75 = hexEscape 0x75 from rfl,
        hexEscape_hexDigits (c := 0x75) (n := 4) rfl (by omega)]
      simp [hr]
    · simp only [validRune, Bool.or_eq_true, decide_eq_true_eq, Bool.and_eq_true] at hr
      rw [List.cons_append, List.cons_append, unquoteChar_escape (by decide),
        show unquoteEscape 0x22 0x55 = hexEscape 0x55 from rfl,
        hexEscape_hexDigits (c := 0x55) (n := 8) rfl (by omega)]
      simp [validRune]; omega

/-- The loop of `unquote` after the opening quote: the unescaped bytes up to the first
unescaped `quote`, and what is left from that quote on. A `'` literal holds one character. -/
def unquoteLoop (quote : UInt8) : Bytes → Option (Bytes × Bytes)
  | [] => some ([], [])
  | c :: s =>
    if c = quote then some ([], c :: s)
    else match h : unquoteChar (c :: s) quote with
      | none => none
      | some (r, multibyte, rem) =>
        if c = 0x0A then none
        else if quote = 0x27 then some (charBytes r multibyte, rem)
        else
          have := unquoteChar_tail h
          (unquoteLoop quote rem).map fun p => (charBytes r multibyte ++ p.1, p.2)
termination_by s => s.length

theorem unquoteLoop_cons {c : UInt8} {s rest : Bytes} {v : Nat} {mb : Bool}
    (h : unquoteChar (c :: s) 0x22 = some (v, mb, rest)) (hn : c ≠ 0x0A) :
    unquoteLoop 0x22 (c :: s) =
      (unquoteLoop 0x22 rest).map fun p => (charBytes v mb ++ p.1, p.2) := by
  have hq : c ≠ 0x22 := by rintro rfl; simp [unquoteChar] at h
  rw [unquoteLoop]
  simp only [if_neg hq]
  split
  · simp_all
  · rename_i h'
    rw [h] at h'
    cases h'
    simp [hn]

theorem unquoteLoop_piece {p t : Bytes} {v : Nat} {mb : Bool}
    (h : unquoteChar (p ++ t) 0x22 = some (v, mb, t)) (hp : ∀ b ∈ p, 0x20 ≤ b.toNat) :
    unquoteLoop 0x22 (p ++ t) = (unquoteLoop 0x22 t).map fun q => (charBytes v mb ++ q.1, q.2) := by
  cases p with
  | nil => exact absurd (unquoteChar_tail h) (lt_irrefl _)
  | cons c p =>
    refine unquoteLoop_cons h fun hc => ?_
    have := hp c (List.mem_cons_self c p)
    subst hc
    exact absurd this (by decide)

theorem unquoteLoop_invalidByte (c : UInt8) (t : Bytes) :
    unquoteLoop 0x22 (0x5C :: 0x78 :: hexDigits 2 c.toNat ++ t) =
      (unquoteLoop 0x22 t).map fun q => (c :: q.1, q.2) := by
  have hu : unquoteChar (0x5C :: 0x78 :: (hexDigits 2 c.toNat ++ t)) 0x22 =
      some (c.toNat, false, t) := by
    rw [unquoteChar_escape (by decide), show unquoteEscape 0x22 0x78 = hexEscape 0x78 from rfl,
      hexEscape_hexDigits (c := 0x78) (n := 2) rfl (toNat_lt c)]
    rfl
  rw [List.cons_append, List.cons_append, unquoteLoop_cons hu (by decide)]
  simp [charBytes]

/-- **The loop of `unquote` reads back the body `appendQuotedWith` writes**, up to the closing
quote, for every byte string. -/
theorem unquoteLoop_quoteBody (table : Nat → Bool) (s rest : Bytes) :
    unquoteLoop 0x22 (quoteBody table s ++ 0x22 :: rest) = some (s, 0x22 :: rest) := by
  induction s using quoteBody.induct table with
  | case1 => simp [quoteBody, unquoteLoop]
  | case2 c s h ih =>
    obtain ⟨mb, hu, hb⟩ :=
      unquoteChar_escapedRune table (validRune_of_lt h) (quoteBody table s ++ 0x22 :: rest)
    rw [quoteBody, if_pos h, List.append_assoc,
      unquoteLoop_piece hu (fun _ => le_of_mem_escapedRune table _), ih, hb, encodeRune_toNat h]
    rfl
  | case3 c s h _ h' ih =>
    rw [quoteBody, if_neg h, if_pos h', List.append_assoc, unquoteLoop_invalidByte, ih]
    rfl
  | case4 c s h _ h' ih =>
    obtain ⟨r, t, hr, -, hct, hd⟩ := decodeRune_split (by omega) h'
    have hdrop : (c :: s).drop (decodeRune (c :: s)).2 = t := by rw [hd, hct, List.drop_left]
    obtain ⟨mb, hu, hb⟩ := unquoteChar_escapedRune table hr (quoteBody table t ++ 0x22 :: rest)
    rw [hdrop] at ih
    rw [quoteBody, if_neg h, if_neg h', hdrop, hd, List.append_assoc,
      unquoteLoop_piece hu (fun _ => le_of_mem_escapedRune table _), ih, hct, hb]
    rfl

theorem unquoteLoop_plain {u : Bytes} (hv : validString u) (hq : 0x22 ∉ u) (hb : 0x5C ∉ u)
    (hn : 0x0A ∉ u) (rest : Bytes) :
    unquoteLoop 0x22 (u ++ 0x22 :: rest) = some (u, 0x22 :: rest) := by
  induction u using validString.induct with
  | case1 => simp [unquoteLoop]
  | case2 c s h ih =>
    simp only [List.mem_cons, not_or] at hq hb hn
    rw [validString, if_pos h] at hv
    rw [List.cons_append, unquoteLoop_cons (unquoteChar_of_lt (Ne.symm hq.1) h (Ne.symm hb.1) _)
      (Ne.symm hn.1),
      ih hv hq.2 hb.2 hn.2]
    simp [charBytes, h]
  | case3 c s h _ ih =>
    rw [validString, if_neg h, Bool.and_eq_true, bne_iff_ne] at hv
    obtain ⟨r, t, hr, h80, hct, hd⟩ := decodeRune_split (by omega) fun h' => hv.1 h'.1
    have hdrop : (c :: s).drop (decodeRune (c :: s)).2 = t := by rw [hd, hct, List.drop_left]
    have hsub : ∀ {x : UInt8}, x ∉ c :: s → x ∉ t := fun hx ht => hx (hct ▸ by simp [ht])
    rw [hdrop] at ih hv
    rw [hct, List.append_assoc, unquoteLoop_piece (unquoteChar_encodeRune hr h80 _)
      (fun _ hb => le_trans (by decide) (le_of_mem_encodeRune h80 hb)),
      ih hv.2 (hsub hq) (hsub hb) (hsub hn), charBytes_true]
    rfl

/-- `strconv.Unquote(s)`; `none` is `ErrSyntax`. -/
def unquote (s : Bytes) : Option Bytes :=
  match s with
  | [] | [_] => none
  | quote :: t =>
    match indexByte t quote with
    | none => none
    | some e =>
      if quote = 0x60 then
        if t.drop (e + 1) = [] then some ((t.take e).filter (· != 0x0D)) else none
      else if quote = 0x22 ∨ quote = 0x27 then
        let valid :=
          if quote = 0x22 then validString (t.take e)
          else (decodeRune (t.take e)).2 = e ∧
            ((decodeRune (t.take e)).1 ≠ runeError ∨ (decodeRune (t.take e)).2 ≠ 1)
        if 0x5C ∉ (quote :: t).take (e + 2) ∧ 0x0A ∉ (quote :: t).take (e + 2) ∧ valid then
          if t.drop (e + 1) = [] then some (t.take e) else none
        else
          match unquoteLoop quote t with
          | some (out, q :: rest) => if q = quote ∧ rest = [] then some out else none
          | _ => none
      else none

/-- **`Unquote` inverts `AppendQuote`** on every byte string, ill-formed UTF-8 included. -/
theorem unquote_appendQuote (table : Nat → Bool) (s : Bytes) :
    unquote (appendQuote table [] s) = some s := by
  have hloop := unquoteLoop_quoteBody table s []
  have happ : appendQuote table [] s = 0x22 :: (quoteBody table s ++ [0x22]) := by
    simp [appendQuote]
  rw [happ, unquote]
  on_goal 2 => simp
  split
  · rename_i hi; simp [indexByte_eq_none] at hi
  rename_i e hi
  obtain ⟨a, b, hab, hqa, rfl⟩ := indexByte_eq_some hi
  simp only [show (0x22 : UInt8) ≠ 0x60 by decide, if_false, true_or, if_true]
  rw [hab] at hloop ⊢
  have htake : (0x22 :: (a ++ 0x22 :: b)).take (a.length + 2) = 0x22 :: (a ++ [0x22]) := by
    simp [List.take_append_eq_append_take]
  rw [htake, List.take_left' rfl]
  by_cases hfast : 0x5C ∉ 0x22 :: (a ++ [0x22]) ∧ 0x0A ∉ 0x22 :: (a ++ [0x22]) ∧ validString a
  · rw [if_pos hfast]
    obtain ⟨hb, hn, hv⟩ := hfast
    obtain ⟨rfl, rfl⟩ : a = s ∧ b = [] := by
      simpa using (unquoteLoop_plain hv hqa (fun h => hb (by simp [h]))
        (fun h => hn (by simp [h])) b).symm.trans hloop
    simp
  · rw [if_neg hfast, hloop]
    simp

/-! ## The fast path of `Unquote` -/

/-- `strconv.Unquote` with every `"` and `'` literal read by its general loop, as when the fast
path for literals without escapes is left out. -/
def unquoteByLoop (s : Bytes) : Option Bytes :=
  match s with
  | [] | [_] => none
  | quote :: t =>
    match indexByte t quote with
    | none => none
    | some e =>
      if quote = 0x60 then
        if t.drop (e + 1) = [] then some ((t.take e).filter (· != 0x0D)) else none
      else if quote = 0x22 ∨ quote = 0x27 then
        match unquoteLoop quote t with
        | some (out, q :: rest) => if q = quote ∧ rest = [] then some out else none
        | _ => none
      else none

theorem unquoteLoop_single {a : Bytes} (ha : 0x27 ∉ a) (hb : 0x5C ∉ a) (hn : 0x0A ∉ a)
    (hd : (decodeRune a).2 = a.length)
    (he : (decodeRune a).1 ≠ runeError ∨ (decodeRune a).2 ≠ 1)
    (rest : Bytes) : unquoteLoop 0x27 (a ++ 0x27 :: rest) = some (a, 0x27 :: rest) := by
  cases a with
  | nil => simp [unquoteLoop]
  | cons c a =>
    simp only [List.mem_cons, not_or] at ha hb hn
    have hread : ∃ v mb,
        unquoteChar (c :: (a ++ 0x27 :: rest)) 0x27 = some (v, mb, 0x27 :: rest) ∧
          charBytes v mb = c :: a := by
      rcases Nat.lt_or_ge c.toNat 0x80 with hc | hc
      · rw [decodeRune_of_lt hc] at hd
        obtain rfl : a = [] := List.eq_nil_of_length_eq_zero (by simpa using hd.symm)
        exact ⟨c.toNat, false, unquoteChar_of_lt (Ne.symm ha.1) hc (Ne.symm hb.1) _,
          by rw [charBytes_of_lt hc, encodeRune_toNat hc]⟩
      · obtain ⟨r, t, hr, -, hct, hdec⟩ :=
          decodeRune_split hc fun h => he.elim (· h.2) (· h.1)
        rw [hdec] at hd
        obtain rfl : t = [] := by
          have := congrArg List.length hct
          simp only [List.length_append, List.length_cons] at this hd
          exact List.eq_nil_of_length_eq_zero (by omega)
        rw [List.append_nil] at hct
        refine ⟨r, true, ?_, by rw [charBytes_true, hct]⟩
        rw [unquoteChar_of_ge (by rintro rfl; exact absurd hc (by decide)) hc, ← List.cons_append,
          hct, decodeRune_encodeRune hr, List.drop_left]
    obtain ⟨v, mb, hu, hbytes⟩ := hread
    rw [List.cons_append, unquoteLoop, if_neg (Ne.symm ha.1)]
    split <;> rename_i h <;> rw [hu] at h
    · cases h
    · obtain ⟨rfl, rfl, rfl⟩ := h
      simp [Ne.symm hn.1, hbytes]

/-- **The fast path of `Unquote` changes no answer.** -/
theorem unquote_eq_unquoteByLoop (s : Bytes) : unquote s = unquoteByLoop s := by
  rcases s with _ | ⟨quote, _ | ⟨x, t⟩⟩
  · rfl
  · rfl
  simp only [unquote, unquoteByLoop]
  cases hi : indexByte (x :: t) quote with
  | none => rfl
  | some e =>
    obtain ⟨a, b, hab, ha, rfl⟩ := indexByte_eq_some hi
    rw [hab]
    dsimp only
    by_cases h60 : quote = 0x60
    · simp only [if_pos h60]
    rw [if_neg h60, if_neg h60]
    by_cases hq : quote = 0x22 ∨ quote = 0x27
    swap
    · simp only [if_neg hq]
    rw [if_pos hq, if_pos hq]
    have htake : (quote :: (a ++ quote :: b)).take (a.length + 2) = quote :: (a ++ [quote]) := by
      simp [List.take_append_eq_append_take]
    rw [htake, List.take_left' rfl]
    have hfinish : unquoteLoop quote (a ++ quote :: b) = some (a, quote :: b) →
        (if (a ++ quote :: b).drop (a.length + 1) = [] then some a else none) =
          match unquoteLoop quote (a ++ quote :: b) with
          | some (out, q :: rest) => if q = quote ∧ rest = [] then some out else none
          | _ => none := fun h => by rw [h]; simp
    have hsub : ∀ {y : UInt8}, y ∉ quote :: (a ++ [quote]) → y ∉ a :=
      fun hy h => hy (by simp [h])
    rcases hq with rfl | rfl
    · rw [if_pos rfl]
      split
      · rename_i hfast
        exact hfinish (unquoteLoop_plain hfast.2.2 ha (hsub hfast.1) (hsub hfast.2.1) b)
      · rfl
    · rw [if_neg (show (0x27 : UInt8) ≠ 0x22 by decide)]
      split
      · rename_i hfast
        have hv := of_decide_eq_true hfast.2.2
        exact hfinish (unquoteLoop_single ha (hsub hfast.1) (hsub hfast.2.1) hv.1 hv.2 b)
      · rfl

/-! ## `strconv.Atoi` -/

/-- `strconv.Atoi(s)` on a 64-bit platform: an optional sign, then at least one decimal digit,
the value within the range of `int`; `none` is the error. -/
def atoi (s : String) : Option Int :=
  let (neg, ds) : Bool × List Char := match s.toList with
    | '-' :: ds => (true, ds)
    | '+' :: ds => (false, ds)
    | ds => (false, ds)
  if ds = [] ∨ ds.any (fun c => !c.isDigit) then none
  else
    let n : Int := ds.foldl (fun n c => n * 10 + (c.toNat - 0x30)) 0
    let v := if neg then -n else n
    if -2 ^ 63 ≤ v ∧ v < 2 ^ 63 then some v else none

end Jaws
