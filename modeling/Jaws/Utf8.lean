import Mathlib.Data.List.Basic

/-!
# UTF-8 as the Go runtime reads it

The frame codec of `wsmsg.go` works on Go byte slices and leans on three functions of Go's
`unicode/utf8` and `bytes` packages. They are modelled here on `List UInt8`, with runes as
natural numbers (a Go `rune` that does not fit is not a scalar value either way).

* `decodeRune`: `utf8.DecodeRune`, the first rune and its width, `(runeError, 1)` on an
  ill-formed sequence, by the lead-byte table of `utf8.first` and `acceptRanges`;
* `encodeRune`: the bytes `utf8.AppendRune` appends;
* `toValidUTF8`: `bytes.ToValidUTF8`, which replaces each run of ill-formed bytes;
* **`decodeRune_encodeRune`** and **`decodeRune_view`**: decoding reads back an encoded scalar
  value, and a sequence led by a non-ASCII byte is either ill-formed at its front or starts with
  such an encoding;
* `Utf8`, well-formed sequences, and **`toValidUTF8_of_utf8`**: `bytes.ToValidUTF8` leaves them
  unchanged.
-/

namespace Jaws

/-- A Go byte slice or string. -/
abbrev Bytes := List UInt8

/-- `utf8.RuneError`, U+FFFD. -/
def runeError : Nat := 0xFFFD

/-- `utf8.ValidRune`: a Unicode scalar value. -/
def validRune (r : Nat) : Bool := r < 0xD800 || (0xDFFF < r && r ≤ 0x10FFFF)

/-- The size of the sequence a byte leads and the range its second byte must lie in
(`utf8.first` and `acceptRanges`); `none` for a byte that leads no sequence. -/
def leadRange (p0 : Nat) : Option (Nat × Nat × Nat) :=
  if p0 < 0xC2 then none
  else if p0 ≤ 0xDF then some (2, 0x80, 0xBF)
  else if p0 = 0xE0 then some (3, 0xA0, 0xBF)
  else if p0 = 0xED then some (3, 0x80, 0x9F)
  else if p0 ≤ 0xEF then some (3, 0x80, 0xBF)
  else if p0 = 0xF0 then some (4, 0x90, 0xBF)
  else if p0 ≤ 0xF3 then some (4, 0x80, 0xBF)
  else if p0 = 0xF4 then some (4, 0x80, 0x8F)
  else none

/-- A continuation byte, between `locb` and `hicb`. -/
def isCont (b : Nat) : Bool := 0x80 ≤ b && b ≤ 0xBF

/-- `utf8.DecodeRune`. A sequence shorter than its lead byte announces gives `(runeError, 1)`,
as the source's `n < sz` test does; `p0&mask2` is `p0 % 32`, and so on. -/
def decodeRune : Bytes → Nat × Nat
  | [] => (runeError, 0)
  | p0 :: p =>
    if p0.toNat < 0x80 then (p0.toNat, 1) else
    match leadRange p0.toNat, p with
    | some (sz, lo, hi), b1 :: p =>
      if b1.toNat < lo || hi < b1.toNat then (runeError, 1)
      else if sz ≤ 2 then (p0.toNat % 32 * 64 + b1.toNat % 64, 2)
      else match p with
        | b2 :: p =>
          if !isCont b2.toNat then (runeError, 1)
          else if sz ≤ 3 then (p0.toNat % 16 * 4096 + b1.toNat % 64 * 64 + b2.toNat % 64, 3)
          else match p with
            | b3 :: _ =>
              if !isCont b3.toNat then (runeError, 1)
              else (p0.toNat % 8 * 262144 + b1.toNat % 64 * 4096 + b2.toNat % 64 * 64 +
                b3.toNat % 64, 4)
            | [] => (runeError, 1)
        | [] => (runeError, 1)
    | _, _ => (runeError, 1)

/-- The bytes `utf8.AppendRune` appends for `r`; a value that is no scalar value is written as
`runeError`. The source's `t2|byte(r>>6)` is `0xC0 + r / 64`, the bit fields being disjoint. -/
def encodeRune (r : Nat) : Bytes :=
  if r ≤ 0x7F then [UInt8.ofNat r]
  else if r ≤ 0x7FF then [UInt8.ofNat (0xC0 + r / 64), UInt8.ofNat (0x80 + r % 64)]
  else
    let r := if validRune r then r else runeError
    if r ≤ 0xFFFF then
      [UInt8.ofNat (0xE0 + r / 4096), UInt8.ofNat (0x80 + r / 64 % 64), UInt8.ofNat (0x80 + r % 64)]
    else
      [UInt8.ofNat (0xF0 + r / 262144), UInt8.ofNat (0x80 + r / 4096 % 64),
        UInt8.ofNat (0x80 + r / 64 % 64), UInt8.ofNat (0x80 + r % 64)]

/-! ## Bytes as numbers -/

@[simp] theorem toNat_ofNat (n : Nat) : (UInt8.ofNat n).toNat = n % 256 := by
  simp [UInt8.ofNat, UInt8.toNat, BitVec.toNat_ofNat]

theorem ofNat_eq_iff {n : Nat} {b : UInt8} : UInt8.ofNat n = b ↔ n % 256 = b.toNat :=
  ⟨fun h => h ▸ (toNat_ofNat n).symm, fun h => UInt8.toNat.inj (by simpa using h)⟩

theorem toNat_lt (b : UInt8) : b.toNat < 256 := b.toNat_lt_size

@[simp] theorem ofNat_toNat (b : UInt8) : UInt8.ofNat b.toNat = b :=
  ofNat_eq_iff.2 (Nat.mod_eq_of_lt (toNat_lt b))

/-! ## Decoding -/

theorem leadRange_of_lt {p : Nat} (h : p < 0xC2 ∨ 0xF4 < p) : leadRange p = none := by
  unfold leadRange
  rcases h with h | h
  · rw [if_pos h]
  · simp (disch := omega) only [if_neg]

theorem leadRange_two {p : Nat} (h : 0xC2 ≤ p) (h' : p ≤ 0xDF) : leadRange p = some (2, 0x80, 0xBF) := by
  unfold leadRange
  simp (disch := omega) only [if_neg, if_pos]

theorem leadRange_three {p : Nat} (h : 0xE0 ≤ p) (h' : p ≤ 0xEF) :
    leadRange p = some (3, if p = 0xE0 then 0xA0 else 0x80, if p = 0xED then 0x9F else 0xBF) := by
  unfold leadRange
  by_cases e : p = 0xE0
  · subst e; rfl
  by_cases d : p = 0xED
  · subst d; rfl
  simp (disch := omega) only [if_neg, if_pos]

theorem leadRange_four {p : Nat} (h : 0xF0 ≤ p) (h' : p ≤ 0xF4) :
    leadRange p = some (4, if p = 0xF0 then 0x90 else 0x80, if p = 0xF4 then 0x8F else 0xBF) := by
  unfold leadRange
  by_cases e : p = 0xF0
  · subst e; rfl
  by_cases d : p = 0xF4
  · subst d; rfl
  simp (disch := omega) only [if_neg, if_pos]

theorem inRange_three {p b : Nat} :
    ¬ (b < (if p = 0xE0 then 0xA0 else 0x80) || (if p = 0xED then 0x9F else 0xBF) < b) ↔
      isCont b ∧ (p = 0xE0 → 0xA0 ≤ b) ∧ (p = 0xED → b ≤ 0x9F) := by
  simp only [isCont, Bool.or_eq_true, decide_eq_true_eq, Bool.and_eq_true, not_or, not_lt]
  split_ifs <;> omega

theorem inRange_four {p b : Nat} :
    ¬ (b < (if p = 0xF0 then 0x90 else 0x80) || (if p = 0xF4 then 0x8F else 0xBF) < b) ↔
      isCont b ∧ (p = 0xF0 → 0x90 ≤ b) ∧ (p = 0xF4 → b ≤ 0x8F) := by
  simp only [isCont, Bool.or_eq_true, decide_eq_true_eq, Bool.and_eq_true, not_or, not_lt]
  split_ifs <;> omega

theorem decodeRune_of_lt {b : UInt8} (h : b.toNat < 0x80) (p : Bytes) :
    decodeRune (b :: p) = (b.toNat, 1) := by
  simp only [decodeRune, h, if_true]

theorem decodeRune_two {b0 b1 : UInt8} (h0 : 0xC2 ≤ b0.toNat) (h0' : b0.toNat ≤ 0xDF)
    (h1 : isCont b1.toNat) (p : Bytes) :
    decodeRune (b0 :: b1 :: p) = (b0.toNat % 32 * 64 + b1.toNat % 64, 2) := by
  simp only [isCont, Bool.and_eq_true, decide_eq_true_eq] at h1
  simp (disch := omega) only [decodeRune, leadRange_two h0 h0', if_pos, if_neg, Bool.or_eq_true,
    decide_eq_true_eq]

theorem decodeRune_three {b0 b1 b2 : UInt8} (h0 : 0xE0 ≤ b0.toNat) (h0' : b0.toNat ≤ 0xEF)
    (h1 : isCont b1.toNat) (hE0 : b0.toNat = 0xE0 → 0xA0 ≤ b1.toNat)
    (hED : b0.toNat = 0xED → b1.toNat ≤ 0x9F) (h2 : isCont b2.toNat) (p : Bytes) :
    decodeRune (b0 :: b1 :: b2 :: p) =
      (b0.toNat % 16 * 4096 + b1.toNat % 64 * 64 + b2.toNat % 64, 3) := by
  simp (disch := omega) only [decodeRune, leadRange_three h0 h0',
    if_neg (inRange_three.2 ⟨h1, hE0, hED⟩), h2, Bool.not_true,
    if_pos, if_neg, reduceCtorEq, ite_false]

theorem decodeRune_four {b0 b1 b2 b3 : UInt8} (h0 : 0xF0 ≤ b0.toNat) (h0' : b0.toNat ≤ 0xF4)
    (h1 : isCont b1.toNat) (hF0 : b0.toNat = 0xF0 → 0x90 ≤ b1.toNat)
    (hF4 : b0.toNat = 0xF4 → b1.toNat ≤ 0x8F) (h2 : isCont b2.toNat) (h3 : isCont b3.toNat)
    (p : Bytes) :
    decodeRune (b0 :: b1 :: b2 :: b3 :: p) =
      (b0.toNat % 8 * 262144 + b1.toNat % 64 * 4096 + b2.toNat % 64 * 64 + b3.toNat % 64, 4) := by
  simp (disch := omega) only [decodeRune, leadRange_four h0 h0',
    if_neg (inRange_four.2 ⟨h1, hF0, hF4⟩), h2, h3, Bool.not_true,
    if_pos, if_neg, reduceCtorEq, ite_false]


/-! ## Encoding -/

theorem encodeRune_of_le {r : Nat} (h : r ≤ 0x7F) : encodeRune r = [UInt8.ofNat r] := by
  simp [encodeRune, h]

theorem encodeRune_two {r : Nat} (h1 : 0x80 ≤ r) (h2 : r ≤ 0x7FF) :
    encodeRune r = [UInt8.ofNat (0xC0 + r / 64), UInt8.ofNat (0x80 + r % 64)] := by
  simp only [encodeRune, if_neg (show ¬ r ≤ 0x7F by omega), if_pos h2]

theorem encodeRune_three {r : Nat} (h1 : 0x800 ≤ r) (h2 : r ≤ 0xFFFF)
    (h3 : r < 0xD800 ∨ 0xDFFF < r) :
    encodeRune r = [UInt8.ofNat (0xE0 + r / 4096), UInt8.ofNat (0x80 + r / 64 % 64),
      UInt8.ofNat (0x80 + r % 64)] := by
  have : validRune r := by simp [validRune]; omega
  simp only [encodeRune, this, if_true, if_pos h2, show ¬ r ≤ 0x7F by omega,
    show ¬ r ≤ 0x7FF by omega, if_false]

theorem encodeRune_four {r : Nat} (h1 : 0x10000 ≤ r) (h2 : r ≤ 0x10FFFF) :
    encodeRune r = [UInt8.ofNat (0xF0 + r / 262144), UInt8.ofNat (0x80 + r / 4096 % 64),
      UInt8.ofNat (0x80 + r / 64 % 64), UInt8.ofNat (0x80 + r % 64)] := by
  have : validRune r := by simp [validRune]; omega
  simp only [encodeRune, this, if_true, show ¬ r ≤ 0xFFFF by omega, show ¬ r ≤ 0x7F by omega,
    show ¬ r ≤ 0x7FF by omega, if_false]

theorem encodeRune_of_two {b0 b1 : UInt8} (h0 : 0xC2 ≤ b0.toNat) (h0' : b0.toNat ≤ 0xDF)
    (h1 : isCont b1.toNat) :
    validRune (b0.toNat % 32 * 64 + b1.toNat % 64) ∧ 0x80 ≤ b0.toNat % 32 * 64 + b1.toNat % 64 ∧
      encodeRune (b0.toNat % 32 * 64 + b1.toNat % 64) = [b0, b1] := by
  simp only [isCont, Bool.and_eq_true, decide_eq_true_eq] at h1
  refine ⟨by simp [validRune]; omega, by omega, ?_⟩
  rw [encodeRune_two (by omega) (by omega)]
  simp only [List.cons.injEq, ofNat_eq_iff, and_true]
  constructor <;> omega

theorem encodeRune_of_three {b0 b1 b2 : UInt8} (h0 : 0xE0 ≤ b0.toNat) (h0' : b0.toNat ≤ 0xEF)
    (h1 : isCont b1.toNat) (hE0 : b0.toNat = 0xE0 → 0xA0 ≤ b1.toNat)
    (hED : b0.toNat = 0xED → b1.toNat ≤ 0x9F) (h2 : isCont b2.toNat) :
    let r := b0.toNat % 16 * 4096 + b1.toNat % 64 * 64 + b2.toNat % 64
    validRune r ∧ 0x80 ≤ r ∧ encodeRune r = [b0, b1, b2] := by
  intro r
  simp only [isCont, Bool.and_eq_true, decide_eq_true_eq] at h1 h2
  refine ⟨by simp [validRune, r]; omega, by omega, ?_⟩
  rw [encodeRune_three (by omega) (by omega) (by omega)]
  simp only [List.cons.injEq, ofNat_eq_iff, and_true]
  clear hE0 hED
  refine ⟨?_, ?_, ?_⟩ <;> omega

theorem encodeRune_of_four {b0 b1 b2 b3 : UInt8} (h0 : 0xF0 ≤ b0.toNat) (h0' : b0.toNat ≤ 0xF4)
    (h1 : isCont b1.toNat) (hF0 : b0.toNat = 0xF0 → 0x90 ≤ b1.toNat)
    (hF4 : b0.toNat = 0xF4 → b1.toNat ≤ 0x8F) (h2 : isCont b2.toNat) (h3 : isCont b3.toNat) :
    let r := b0.toNat % 8 * 262144 + b1.toNat % 64 * 4096 + b2.toNat % 64 * 64 + b3.toNat % 64
    validRune r ∧ 0x80 ≤ r ∧ encodeRune r = [b0, b1, b2, b3] := by
  intro r
  simp only [isCont, Bool.and_eq_true, decide_eq_true_eq] at h1 h2 h3
  refine ⟨by simp [validRune, r]; omega, by omega, ?_⟩
  rw [encodeRune_four (by omega) (by omega)]
  simp only [List.cons.injEq, ofNat_eq_iff, and_true]
  clear hF0 hF4
  refine ⟨?_, ?_, ?_, ?_⟩ <;> omega

/-- **A sequence led by a non-ASCII byte** is ill-formed at its front, or starts with the
encoding of a non-ASCII scalar value. -/
theorem decodeRune_view {c : UInt8} (hc : 0x80 ≤ c.toNat) (s : Bytes) :
    decodeRune (c :: s) = (runeError, 1) ∨
      ∃ r t, validRune r ∧ 0x80 ≤ r ∧ c :: s = encodeRune r ++ t := by
  have hc' : ¬ c.toNat < 0x80 := by omega
  by_cases hn : c.toNat < 0xC2 ∨ 0xF4 < c.toNat
  · simp [decodeRune, hc', leadRange_of_lt hn]
  rcases s with _ | ⟨b1, p⟩
  · left; cases hl : leadRange c.toNat <;> simp [decodeRune, hc', hl]
  have hb1 := toNat_lt b1
  by_cases h2b : c.toNat ≤ 0xDF
  · by_cases h1 : isCont b1.toNat
    · obtain ⟨hv, hge, he⟩ := encodeRune_of_two (by omega) h2b h1
      exact .inr ⟨_, p, hv, hge, by rw [he]; rfl⟩
    · simp only [isCont, Bool.and_eq_true, decide_eq_true_eq, not_and_or, not_le] at h1
      simp [decodeRune, hc', leadRange_two (by omega) h2b, h1]
  by_cases h3b : c.toNat ≤ 0xEF
  · simp only [decodeRune, hc', if_false, leadRange_three (show 0xE0 ≤ c.toNat by omega) h3b]
    by_cases hr : (b1.toNat < (if c.toNat = 0xE0 then 0xA0 else 0x80) ||
      (if c.toNat = 0xED then 0x9F else 0xBF) < b1.toNat)
    · simp only [hr, if_true, true_or]
    have h1 := inRange_three.1 hr
    rcases p with _ | ⟨b2, p⟩
    · simp [hr]
    by_cases h2 : isCont b2.toNat
    · obtain ⟨hv, hge, he⟩ := encodeRune_of_three (by omega) h3b h1.1 h1.2.1 h1.2.2 h2
      exact .inr ⟨_, p, hv, hge, by rw [he]; rfl⟩
    · simp [hr, h2]
  simp only [decodeRune, hc', if_false, leadRange_four (show 0xF0 ≤ c.toNat by omega) (by omega)]
  by_cases hr : (b1.toNat < (if c.toNat = 0xF0 then 0x90 else 0x80) ||
    (if c.toNat = 0xF4 then 0x8F else 0xBF) < b1.toNat)
  · simp only [hr, if_true, true_or]
  have h1 := inRange_four.1 hr
  rcases p with _ | ⟨b2, _ | ⟨b3, p⟩⟩
  · simp [hr]
  · by_cases h2 : isCont b2.toNat <;> simp [hr, h2]
  by_cases h2 : isCont b2.toNat
  · by_cases h3 : isCont b3.toNat
    · obtain ⟨hv, hge, he⟩ := encodeRune_of_four (by omega) (by omega) h1.1 h1.2.1 h1.2.2 h2 h3
      exact .inr ⟨_, p, hv, hge, by rw [he]; rfl⟩
    · simp [hr, h2, h3]
  · simp [hr, h2]

theorem le_of_mem_encodeRune {r : Nat} (h : 0x80 ≤ r) {b : UInt8} (hb : b ∈ encodeRune r) :
    0x80 ≤ b.toNat := by
  simp only [encodeRune, validRune, runeError, if_neg (show ¬ r ≤ 0x7F by omega)] at hb
  split_ifs at hb <;> simp only [List.mem_cons, List.mem_singleton, List.not_mem_nil,
    or_false] at hb <;> rcases hb with rfl | rfl | rfl | rfl <;> simp_all [UInt8.size] <;> omega

theorem encodeRune_ne_nil (r : Nat) : encodeRune r ≠ [] := by
  unfold encodeRune; split_ifs <;> simp <;> split <;> simp

theorem two_le_length_encodeRune {r : Nat} (h : 0x80 ≤ r) : 2 ≤ (encodeRune r).length := by
  simp only [encodeRune, if_neg (show ¬ r ≤ 0x7F by omega)]
  split_ifs <;> simp

theorem cont_payload (x : Nat) : (0x80 + x % 64) % 256 % 64 = x % 64 := by omega

theorem isCont_payload (x : Nat) : isCont (UInt8.ofNat (0x80 + x % 64)).toNat := by
  simp only [isCont, toNat_ofNat, Bool.and_eq_true, decide_eq_true_eq]
  omega

/-- **Decoding reads an encoded scalar value back.** -/
theorem decodeRune_encodeRune {r : Nat} (hr : validRune r) (rest : Bytes) :
    decodeRune (encodeRune r ++ rest) = (r, (encodeRune r).length) := by
  simp only [validRune, Bool.or_eq_true, decide_eq_true_eq, Bool.and_eq_true] at hr
  rcases Nat.lt_or_ge r 0x80 with h | h
  · rw [encodeRune_of_le (by omega), List.singleton_append,
      decodeRune_of_lt (by simp only [toNat_ofNat]; omega)]
    simp; omega
  rcases Nat.lt_or_ge r 0x800 with h' | h'
  · rw [encodeRune_two h (by omega), List.cons_append, List.cons_append,
      decodeRune_two (by simp only [toNat_ofNat]; omega) (by simp only [toNat_ofNat]; omega)
        (isCont_payload _)]
    simp only [toNat_ofNat, cont_payload, List.length, Prod.mk.injEq, and_true]
    omega
  rcases Nat.lt_or_ge r 0x10000 with h'' | h''
  · rw [encodeRune_three h' (by omega) (by omega), List.cons_append, List.cons_append,
      List.cons_append, decodeRune_three (by simp only [toNat_ofNat]; omega)
        (by simp only [toNat_ofNat]; omega) (isCont_payload _) (by simp only [toNat_ofNat]; omega)
        (by simp only [toNat_ofNat]; omega) (isCont_payload _)]
    simp only [toNat_ofNat, cont_payload, List.length, Prod.mk.injEq, and_true]
    have : (0xE0 + r / 4096) % 256 % 16 = r / 4096 := by omega
    rw [this]; omega
  · rw [encodeRune_four h'' (by omega), List.cons_append, List.cons_append, List.cons_append,
      List.cons_append, decodeRune_four (by simp only [toNat_ofNat]; omega)
        (by simp only [toNat_ofNat]; omega) (isCont_payload _) (by simp only [toNat_ofNat]; omega)
        (by simp only [toNat_ofNat]; omega) (isCont_payload _) (isCont_payload _)]
    simp only [toNat_ofNat, cont_payload, List.length, Prod.mk.injEq, and_true]
    have : (0xF0 + r / 262144) % 256 % 8 = r / 262144 := by omega
    rw [this]; omega

theorem validRune_of_lt {r : Nat} (h : r < 0x80) : validRune r := by
  simp [validRune]; omega

theorem encodeRune_toNat {c : UInt8} (h : c.toNat < 0x80) : encodeRune c.toNat = [c] := by
  rw [encodeRune_of_le (by omega), ofNat_toNat]

/-- Where `decodeRune` does not report an ill-formed byte, a sequence led by a non-ASCII byte
starts with the encoding of the scalar value it decodes. -/
theorem decodeRune_split {c : UInt8} {s : Bytes} (hc : 0x80 ≤ c.toNat)
    (h : ¬((decodeRune (c :: s)).2 = 1 ∧ (decodeRune (c :: s)).1 = runeError)) :
    ∃ r t, validRune r ∧ 0x80 ≤ r ∧ c :: s = encodeRune r ++ t ∧
      decodeRune (c :: s) = (r, (encodeRune r).length) := by
  obtain ⟨r, t, hr, h80, hct⟩ := (decodeRune_view hc s).resolve_left fun he => h (by simp [he])
  exact ⟨r, t, hr, h80, hct, by rw [hct]; exact decodeRune_encodeRune hr t⟩

theorem decodeRune_width (c : UInt8) (s : Bytes) :
    1 ≤ (decodeRune (c :: s)).2 ∧ (decodeRune (c :: s)).2 ≤ s.length + 1 := by
  rcases Nat.lt_or_ge c.toNat 0x80 with h | h
  · simp [decodeRune_of_lt h]
  rcases decodeRune_view h s with h' | ⟨r, t, hr, -, he⟩
  · simp [h']
  have := List.length_pos_of_ne_nil (encodeRune_ne_nil r)
  have hl := congrArg List.length he
  rw [he, decodeRune_encodeRune hr]
  simp only [List.length_append, List.length_cons] at hl ⊢
  omega

/-! ## Searching a byte slice -/

/-- `bytes.IndexByte(s, c)`: the index of the first `c` in `s`; `none` is the source's `-1`. -/
def indexByte : Bytes → UInt8 → Option Nat
  | [], _ => none
  | b :: s, c => if b = c then some 0 else (indexByte s c).map (· + 1)

theorem indexByte_append_cons {a : Bytes} {c : UInt8} (h : c ∉ a) (b : Bytes) :
    indexByte (a ++ c :: b) c = some a.length := by
  induction a with
  | nil => simp [indexByte]
  | cons x a ih =>
    simp only [List.mem_cons, not_or] at h
    simp [indexByte, Ne.symm h.1, ih h.2]

theorem indexByte_eq_some {s : Bytes} {c : UInt8} {i : Nat} (h : indexByte s c = some i) :
    ∃ a b, s = a ++ c :: b ∧ c ∉ a ∧ a.length = i := by
  induction s generalizing i with
  | nil => simp [indexByte] at h
  | cons x s ih =>
    simp only [indexByte] at h
    split_ifs at h with hx
    · cases h; exact ⟨[], s, by simp [hx], by simp, rfl⟩
    · obtain ⟨j, hj, rfl⟩ := Option.map_eq_some'.1 h
      obtain ⟨a, b, rfl, ha, rfl⟩ := ih hj
      exact ⟨x :: a, b, rfl, by simp [Ne.symm hx, ha], rfl⟩

theorem indexByte_eq_none {s : Bytes} {c : UInt8} : indexByte s c = none ↔ c ∉ s := by
  induction s with
  | nil => simp [indexByte]
  | cons x s ih =>
    by_cases hx : x = c
    · simp [indexByte, hx]
    · rw [indexByte, if_neg hx, Option.map_eq_none', ih, List.mem_cons, not_or]
      exact ⟨fun h => ⟨Ne.symm hx, h⟩, And.right⟩

/-! ## `bytes.ToValidUTF8` and well-formed sequences -/

/-- `bytes.ToValidUTF8(s, replacement)`: each run of ill-formed bytes is replaced by
`replacement`, once; `invalid` says that the byte before was ill-formed. -/
def toValidUTF8 (replacement : Bytes) (invalid : Bool) : Bytes → Bytes
  | [] => []
  | c :: s =>
    if c.toNat < 0x80 then c :: toValidUTF8 replacement false s
    else
      have := decodeRune_width c s
      if (decodeRune (c :: s)).2 = 1 then
        (if invalid then [] else replacement) ++ toValidUTF8 replacement true s
      else
        (c :: s).take (decodeRune (c :: s)).2 ++
          toValidUTF8 replacement false ((c :: s).drop (decodeRune (c :: s)).2)
termination_by s => s.length
decreasing_by all_goals simp_wf <;> omega

/-- `utf8.ValidString`: every rune decodes without error. The source skips ASCII eight bytes at
a time first, which does not change the answer. -/
def validString : Bytes → Bool
  | [] => true
  | c :: s =>
    if c.toNat < 0x80 then validString s
    else
      have := decodeRune_width c s
      (decodeRune (c :: s)).2 != 1 && validString ((c :: s).drop (decodeRune (c :: s)).2)
termination_by s => s.length
decreasing_by all_goals simp_wf <;> omega

/-- Well-formed UTF-8: encodings of scalar values, one after another. -/
inductive Utf8 : Bytes → Prop
  | nil : Utf8 []
  | cons {r : Nat} {s : Bytes} : validRune r → Utf8 s → Utf8 (encodeRune r ++ s)

theorem Utf8.append {a b : Bytes} (ha : Utf8 a) (hb : Utf8 b) : Utf8 (a ++ b) := by
  induction ha with
  | nil => exact hb
  | cons hr _ ih => rw [List.append_assoc]; exact .cons hr ih

theorem Utf8.cons_ascii {b : UInt8} (h : b.toNat < 0x80) {s : Bytes} (hs : Utf8 s) :
    Utf8 (b :: s) := by
  have hr : validRune b.toNat := by simp [validRune]; omega
  have := Utf8.cons hr hs
  rwa [encodeRune_of_le (by omega), List.singleton_append,
    show UInt8.ofNat b.toNat = b from ofNat_eq_iff.2 (Nat.mod_eq_of_lt (toNat_lt b))] at this

theorem Utf8.of_ascii {s : Bytes} (h : ∀ b ∈ s, b.toNat < 0x80) : Utf8 s := by
  induction s with
  | nil => exact .nil
  | cons b s ih =>
    exact .cons_ascii (h b (List.mem_cons_self _ _))
      (ih fun c hc => h c (List.mem_cons_of_mem _ hc))

/-- **`bytes.ToValidUTF8` leaves well-formed UTF-8 unchanged.** -/
theorem toValidUTF8_of_utf8 {s : Bytes} (hs : Utf8 s) (replacement : Bytes) (invalid : Bool) :
    toValidUTF8 replacement invalid s = s := by
  induction hs generalizing invalid with
  | nil => simp [toValidUTF8]
  | @cons r s hr _ ih =>
    rcases Nat.lt_or_ge r 0x80 with h | h
    · rw [encodeRune_of_le (by omega), List.singleton_append, toValidUTF8,
        if_pos (by simp; omega), ih]
    obtain ⟨c, t, hct⟩ := List.exists_cons_of_ne_nil (encodeRune_ne_nil r)
    have hc : 0x80 ≤ c.toNat := le_of_mem_encodeRune h (show c ∈ encodeRune r by simp [hct])
    have hlen := two_le_length_encodeRune h
    have hdec := decodeRune_encodeRune hr s
    rw [hct] at hdec hlen
    rw [hct, List.cons_append, toValidUTF8, if_neg (by omega), ← List.cons_append, hdec,
      if_neg (by omega), List.take_left, List.drop_left, ih]

theorem utf8_encodeRune {r : Nat} (hr : validRune r) : Utf8 (encodeRune r) := by
  simpa using Utf8.cons hr .nil

theorem Utf8.split_ascii {b : UInt8} (hb : b.toNat < 0x80) :
    ∀ {a c : Bytes}, Utf8 (a ++ b :: c) → Utf8 a ∧ Utf8 c := by
  intro a c h
  generalize hs : a ++ b :: c = s at h
  induction h generalizing a with
  | nil => simp at hs
  | @cons r s hr hs' ih =>
    rcases List.append_eq_append_iff.1 hs with ⟨c', hr', hbc⟩ | ⟨a', rfl, hsa⟩
    swap
    · exact ⟨.cons hr (ih hsa.symm).1, (ih hsa.symm).2⟩
    rcases c' with _ | ⟨y, c'⟩
    · rw [List.append_nil] at hr'
      exact ⟨hr' ▸ utf8_encodeRune hr, (ih (a := []) hbc).2⟩
    obtain ⟨rfl, rfl⟩ := List.cons.inj hbc
    rcases Nat.lt_or_ge r 0x80 with h | h
    · rw [encodeRune_of_le (by omega)] at hr'
      obtain ⟨rfl, rfl⟩ : a = [] ∧ c' = [] := by
        rcases a with _ | ⟨z, a⟩ <;> simp_all
      exact ⟨.nil, hs'⟩
    · exact absurd (le_of_mem_encodeRune h (show b ∈ encodeRune r by rw [hr']; simp)) (by omega)

/-- **`bytes.ToValidUTF8` always gives well-formed UTF-8**, given a well-formed replacement. -/
theorem utf8_toValidUTF8 {replacement : Bytes} (hrep : Utf8 replacement) (invalid : Bool)
    (s : Bytes) : Utf8 (toValidUTF8 replacement invalid s) := by
  induction invalid, s using toValidUTF8.induct replacement with
  | case1 => rw [toValidUTF8]; exact .nil
  | case2 _ c s h ih => rw [toValidUTF8, if_pos h]; exact .cons_ascii h ih
  | case3 invalid c s h _ h1 ih =>
    rw [toValidUTF8, if_neg h, if_pos h1]
    have hpre : Utf8 (if invalid then [] else replacement) := by cases invalid; exacts [hrep, .nil]
    exact hpre.append ih
  | case4 _ c s h _ h1 ih =>
    obtain ⟨r, t, hr, -, hct, hd⟩ := decodeRune_split (by omega) fun h' => h1 h'.1
    rw [hd, hct, List.drop_left] at ih
    rw [toValidUTF8, if_neg h, if_neg h1, hd, hct, List.take_left, List.drop_left]
    exact (utf8_encodeRune hr).append ih

/-- **`utf8.ValidString` decides well-formedness.** -/
theorem validString_iff {s : Bytes} : validString s = true ↔ Utf8 s := by
  constructor
  · intro hv
    induction s using validString.induct with
    | case1 => exact .nil
    | case2 c s h ih => rw [validString, if_pos h] at hv; exact .cons_ascii h (ih hv)
    | case3 c s h _ ih =>
      rw [validString, if_neg h, Bool.and_eq_true, bne_iff_ne] at hv
      obtain ⟨r, t, hr, -, hct, hd⟩ := decodeRune_split (by omega) fun h' => hv.1 h'.1
      rw [hd, hct, List.drop_left] at ih hv
      rw [hct]
      exact .cons hr (ih hv.2)
  · intro hu
    induction hu with
    | nil => rw [validString]
    | @cons r s hr _ ih =>
      rcases Nat.lt_or_ge r 0x80 with h | h
      · rw [encodeRune_of_le (by omega), List.singleton_append, validString,
          if_pos (by rw [toNat_ofNat]; omega), ih]
      obtain ⟨c, t, hct⟩ := List.exists_cons_of_ne_nil (encodeRune_ne_nil r)
      have hc : 0x80 ≤ c.toNat := le_of_mem_encodeRune h (show c ∈ encodeRune r by simp [hct])
      have hlen := two_le_length_encodeRune h
      have hdec := decodeRune_encodeRune hr s
      rw [hct] at hdec hlen
      rw [hct, List.cons_append, validString, if_neg (by omega), ← List.cons_append, hdec,
        List.drop_left, ih]
      simp only [bne_iff_ne, ne_eq, Bool.and_true, decide_eq_true_eq]
      omega

end Jaws
