import BlockLedger.Proofs.Text.Digests

/-!
# The text form of a digest

Which texts stand for a digest, which digest that is, and what is said of all other texts. Reading works
on bytes, and a text is made of characters. Both views agree since the byte of a digit is the digit
itself, and a character of several bytes has none that is the byte of a digit
(`Digest.spells_of_bytes`). So a text of 64 bytes in which no byte offends is one of 64 digits, and in
any other text of 64 bytes the first byte that offends is the one that is reported
(`Hex.firstNonDigit_of_decodePairs`).

Digits are in the order of the numbers they stand for, and two of them are written for each byte, the
high half first. So digests are in the order of their texts (`Hex.encode_lt_encode_iff`).
-/

namespace BlockLedger

namespace Hex

/-! ### Digits as bytes -/

/-- **The byte of a digit** of either case. -/
def IsDigitByte (b : UInt8) : Prop := b ∈ Bytes.ofText "0123456789abcdefABCDEF"

instance : DecidablePred IsDigitByte := fun b =>
  inferInstanceAs (Decidable (b ∈ Bytes.ofText "0123456789abcdefABCDEF"))

/-- A byte stands for a number iff it is that of a digit. -/
theorem isSome_value?_iff (b : UInt8) : (value? b).isSome = true ↔ IsDigitByte b := by
  -- there are only so many bytes, so they are tried out
  have hall : ∀ n < 256, (value? (UInt8.ofNat n)).isSome = decide (IsDigitByte (UInt8.ofNat n)) := by
    decide +kernel
  have hb := hall b.toNat b.toNat_lt
  rw [UInt8.ofNat_toNat] at hb
  rw [hb, decide_eq_true_iff]

theorem value?_eq_none_iff (b : UInt8) : value? b = none ↔ ¬ IsDigitByte b := by
  rw [← isSome_value?_iff, Option.not_isSome_iff_eq_none]

theorem isDigitByte_of_value? {b : UInt8} {n : Nat} (h : value? b = some n) : IsDigitByte b :=
  (isSome_value?_iff b).1 (by rw [h]; rfl)

/-- The byte of a digit is below 128 and is the digit itself. -/
theorem IsDigitByte.exists_digit {b : UInt8} (h : IsDigitByte b) :
    b.toNat < 128 ∧ ∃ c, IsDigit c ∧ b.toNat = c.toNat := by
  unfold IsDigitByte Bytes.ofText Bytes.ofChars at h
  obtain ⟨c, hc, hb⟩ := List.mem_flatMap.1 h
  have hone : c.toNat < 128 := (IsDigit.value hc).1
  rw [Bytes.utf8_of_lt hone, List.mem_singleton] at hb
  have hvalue : b.toNat = c.toNat := by
    rw [hb, UInt8.toNat_ofNat']
    omega
  exact ⟨hvalue ▸ hone, c, hc, hvalue⟩

/-! ### The first byte that is no digit -/

/-- **The first byte that is no digit**, and where it stands. -/
structure FirstNonDigit (bytes : Bytes) (b : UInt8) (i : Nat) : Prop where
  here : bytes[i]? = some b
  offends : ¬ IsDigitByte b
  before : ∀ a ∈ bytes.take i, IsDigitByte a

theorem firstNonDigit_cons_zero {b : UInt8} (h : ¬ IsDigitByte b) (bytes : Bytes) :
    FirstNonDigit (b :: bytes) b 0 where
  here := rfl
  offends := h
  before _ ha := absurd ha List.not_mem_nil

/-- A digit in front moves all places by one. -/
theorem FirstNonDigit.cons {bytes : Bytes} {a b : UInt8} {i : Nat} (h : FirstNonDigit bytes b i)
    (ha : IsDigitByte a) : FirstNonDigit (a :: bytes) b (i + 1) where
  here := h.here
  offends := h.offends
  before := by
    rw [List.take_succ_cons]
    exact List.forall_mem_cons.2 ⟨ha, h.before⟩

/-- Only one byte is the first. -/
theorem FirstNonDigit.unique {bytes : Bytes} {a b : UInt8} {i j : Nat}
    (h : FirstNonDigit bytes a i) (h' : FirstNonDigit bytes b j) : a = b ∧ i = j := by
  -- a byte in front of the other one would be a digit
  have hnot : ∀ {c d k l}, FirstNonDigit bytes c k → FirstNonDigit bytes d l → ¬ k < l := by
    intro c d k l hk hl hlt
    refine hk.offends (hl.before c (List.mem_of_getElem? (i := k) ?_))
    rw [List.getElem?_take_of_lt hlt]
    exact hk.here
  obtain rfl : i = j := Nat.le_antisymm (Nat.le_of_not_lt (hnot h' h)) (Nat.le_of_not_lt (hnot h h'))
  exact ⟨Option.some.inj (h.here.symm.trans h'.here), rfl⟩

/-- **What is reported** of digits that are read two by two is the first byte that is none. -/
theorem firstNonDigit_of_decodePairs {start : Nat} {bytes : Bytes} {f : Fault}
    (h : decodePairs start bytes = .error f) :
    ∃ b i, f = .badByte b (start + i) ∧ FirstNonDigit bytes b i := by
  fun_induction decodePairs start bytes generalizing f with
  | case1 start high low rest hhigh =>
    cases h
    exact ⟨high, 0, rfl, firstNonDigit_cons_zero ((value?_eq_none_iff high).1 hhigh) _⟩
  | case2 start high low rest m hhigh hlow =>
    cases h
    have hlow' := firstNonDigit_cons_zero ((value?_eq_none_iff low).1 hlow) rest
    exact ⟨low, 1, rfl, hlow'.cons (isDigitByte_of_value? hhigh)⟩
  | case3 start high low rest m hhigh n hlow g hrest ih =>
    cases h
    obtain ⟨b, i, rfl, hfirst⟩ := ih hrest
    refine ⟨b, i + 2, by rw [Nat.add_right_comm, Nat.add_assoc], ?_⟩
    exact (hfirst.cons (isDigitByte_of_value? hlow)).cons (isDigitByte_of_value? hhigh)
  | case4 => cases h
  | case5 => cases h

/-- If nothing is reported of an even number of bytes, they all are digits. -/
theorem isDigitByte_of_decodePairs {start : Nat} {bytes out : Bytes} (heven : bytes.length % 2 = 0)
    (h : decodePairs start bytes = .ok out) : ∀ b ∈ bytes, IsDigitByte b := by
  fun_induction decodePairs start bytes generalizing out with
  | case1 => cases h
  | case2 => cases h
  | case3 => cases h
  | case4 start high low rest m hhigh n hlow more hrest ih =>
    have heven' : rest.length % 2 = 0 := by
      simp only [List.length_cons] at heven
      omega
    refine List.forall_mem_cons.2 ⟨isDigitByte_of_value? hhigh, ?_⟩
    exact List.forall_mem_cons.2 ⟨isDigitByte_of_value? hlow, ih heven' hrest⟩
  | case5 bytes start hnone =>
    -- what is not read is a single byte or none, and it is not a single one
    match bytes, heven with
    | [], _ => exact fun b hb => absurd hb List.not_mem_nil
    | high :: low :: rest, _ => exact absurd rfl (hnone high low rest)

/-! ### The order of digits -/

theorem digit_lt_digit_iff {m n : Nat} (hm : m < 16) (hn : n < 16) : digit m < digit n ↔ m < n := by
  have hall : ∀ m < 16, ∀ n < 16, digit m < digit n ↔ m < n := by decide +kernel
  exact hall m hm n hn

theorem digit_eq_digit_iff {m n : Nat} (hm : m < 16) (hn : n < 16) : digit m = digit n ↔ m = n := by
  have hall : ∀ m < 16, ∀ n < 16, digit m = digit n ↔ m = n := by decide +kernel
  exact hall m hm n hn

/-- A byte is the same as another one iff its two digits are. -/
theorem eq_iff_digits (x y : UInt8) :
    x = y ↔ digit (x.toNat / 16) = digit (y.toNat / 16) ∧
      digit (x.toNat % 16) = digit (y.toNat % 16) := by
  have hx : x.toNat < 256 := x.toNat_lt
  have hy : y.toNat < 256 := y.toNat_lt
  rw [digit_eq_digit_iff (by omega) (by omega), digit_eq_digit_iff (by omega) (by omega),
    ← UInt8.toNat_inj]
  omega

/-- A byte is below another one iff its first digit is, or its second one with the same first digit. -/
theorem lt_iff_digits (x y : UInt8) :
    x < y ↔ digit (x.toNat / 16) < digit (y.toNat / 16) ∨
      digit (x.toNat / 16) = digit (y.toNat / 16) ∧
        digit (x.toNat % 16) < digit (y.toNat % 16) := by
  have hx : x.toNat < 256 := x.toNat_lt
  have hy : y.toNat < 256 := y.toNat_lt
  rw [digit_lt_digit_iff (by omega) (by omega), digit_eq_digit_iff (by omega) (by omega),
    digit_lt_digit_iff (by omega) (by omega), UInt8.lt_iff_toNat_lt]
  omega

/-- **Bytes are in the order of their digits.** The first byte in which two byte strings differ is the
first one in whose digits their texts do. -/
theorem encode_lt_encode_iff (a b : Bytes) : encode a < encode b ↔ a < b := by
  induction a generalizing b with
  | nil =>
    cases b with
    | nil => exact iff_of_false (List.not_lt_nil _) (List.not_lt_nil _)
    | cons y b => exact iff_of_true (List.nil_lt_cons _ _) (List.nil_lt_cons _ _)
  | cons x a ih =>
    cases b with
    | nil => exact iff_of_false (List.not_lt_nil _) (List.not_lt_nil _)
    | cons y b =>
      have hencode : ∀ (z : UInt8) (c : Bytes),
          encode (z :: c) = digit (z.toNat / 16) :: digit (z.toNat % 16) :: encode c :=
        fun z c => rfl
      rw [hencode, hencode, List.cons_lt_cons_iff, List.cons_lt_cons_iff, List.cons_lt_cons_iff,
        ih b, lt_iff_digits, eq_iff_digits x y, and_or_left, or_assoc, and_assoc]

end Hex

namespace Digest

open Hex

/-! ### Reading -/

/-- **A text of digits in its bytes** is one in its characters. -/
theorem spells_of_bytes {s : String} (hlength : (Bytes.ofText s).length = 64)
    (h : ∀ b ∈ Bytes.ofText s, IsDigitByte b) : Spells s := by
  have hdigits : ∀ c ∈ s.toList, IsDigit c := by
    intro c hc
    obtain ⟨b, hb⟩ : ∃ b, b ∈ String.utf8EncodeChar c := by
      refine List.exists_mem_of_length_pos ?_
      rw [String.length_utf8EncodeChar]
      exact c.utf8Size_pos
    obtain ⟨hone, d, hd, hvalue⟩ := (h b (List.mem_flatMap.2 ⟨c, hc, hb⟩)).exists_digit
    -- a character of several bytes has none below 128
    rcases Bytes.eq_or_le_of_mem_utf8 hb with heq | hle
    · obtain rfl : c = d := Char.toNat_inj.1 (heq.symm.trans hvalue)
      exact hd
    · omega
  refine ⟨?_, hdigits⟩
  rw [← length_ofChars_digits hdigits]
  exact hlength

/-- **A text stands for a digest** iff it has 64 digits, and then for the one that is written in the
same digits in lower case. -/
theorem parse_eq_ok_iff {s : String} {d : Digest} :
    parse s = .ok d ↔ Spells s ∧ d.hex = s.toLower := by
  constructor
  · intro h
    have hspells : Spells s := by
      unfold parse at h
      simp only at h
      split_ifs at h with hlength
      split at h
      · cases h
      · next bytes hdecode =>
        unfold decode at hdecode
        rw [if_neg (by rw [hlength]; decide)] at hdecode
        exact spells_of_bytes hlength (isDigitByte_of_decodePairs (by rw [hlength]) hdecode)
    obtain ⟨d', hparse, hhex⟩ := exists_parse_eq hspells
    rw [h] at hparse
    cases hparse
    exact ⟨hspells, hhex⟩
  · rintro ⟨hspells, hhex⟩
    obtain ⟨d', hparse, hhex'⟩ := exists_parse_eq hspells
    rw [hparse, hex_inj (hhex.trans hhex'.symm)]

/-- **What is said of a text that is no digest**: that its length is wrong, or which of its bytes is
the first one that is no digit. -/
theorem parse_eq_error_iff {s : String} {f : Fault} :
    parse s = .error f ↔
      (byteLength s ≠ 64 ∧ f = .wrongLength (byteLength s)) ∨
        (byteLength s = 64 ∧ ∃ b i, f = .notHex (.badByte b i) ∧ FirstNonDigit (Bytes.ofText s) b i) := by
  by_cases hlength : (Bytes.ofText s).length = 64
  · have hnot : ¬ byteLength s ≠ 64 := not_not_intro hlength
    have hdecode : decode (Bytes.ofText s) = decodePairs 0 (Bytes.ofText s) := by
      unfold decode
      rw [if_neg (by rw [hlength]; decide)]
    cases hread : decodePairs 0 (Bytes.ofText s) with
    | error g =>
      obtain ⟨b, i, rfl, hfirst⟩ := firstNonDigit_of_decodePairs hread
      have hparse : parse s = .error (.notHex (.badByte b (0 + i))) := by
        unfold parse
        simp only [hlength, if_true, hdecode, hread]
      rw [hparse]
      constructor
      · rintro ⟨⟩
        exact .inr ⟨hlength, b, i, by rw [Nat.zero_add], hfirst⟩
      · rintro (⟨hother, -⟩ | ⟨-, b', i', rfl, hfirst'⟩)
        · exact absurd hother hnot
        · obtain ⟨rfl, rfl⟩ := hfirst.unique hfirst'
          rw [Nat.zero_add]
    | ok bytes =>
      -- all bytes are digits, so the text is a digest and none of them offends
      have hdigits := isDigitByte_of_decodePairs (by rw [hlength]) hread
      obtain ⟨d, hparse, -⟩ := exists_parse_eq (spells_of_bytes hlength hdigits)
      rw [hparse]
      refine iff_of_false nofun ?_
      rintro (⟨hother, -⟩ | ⟨-, b, i, -, hfirst⟩)
      · exact hnot hother
      · exact hfirst.offends (hdigits b (List.mem_of_getElem? hfirst.here))
  · have hparse : parse s = .error (.wrongLength (byteLength s)) := by
      unfold parse
      simp only [hlength, if_false]
      rfl
    rw [hparse]
    constructor
    · rintro ⟨⟩
      exact .inl ⟨hlength, rfl⟩
    · rintro (⟨-, rfl⟩ | ⟨hother, -⟩)
      · rfl
      · exact absurd hother hlength

/-! ### Order -/

/-- **Digests are in the order of their texts.** -/
theorem lt_iff_hex_lt (d e : Digest) : d < e ↔ d.hex < e.hex := by
  show d.bytes < e.bytes ↔ d.hex.toList < e.hex.toList
  unfold hex text
  rw [String.toList_ofList, String.toList_ofList, encode_lt_encode_iff]

/-- **The text form of a digest.**

* A text is read as a digest iff it is made of exactly 64 hexadecimal digits, and the digest is the one
  that is written in the same digits in lower case.
* Its length is reported iff it has not 64 bytes in UTF-8; of a text with 64 bytes that is no digest the
  first byte that is no digit is reported, with its place.
* What is written for a digest is read as that digest.
* Digests are in the order of what is written for them. -/
theorem text_form :
    (∀ s, (∃ d, parse s = .ok d) ↔ Spells s) ∧
      (∀ s d, parse s = .ok d ↔ Spells s ∧ d.hex = s.toLower) ∧
      (∀ s n, parse s = .error (.wrongLength n) ↔ byteLength s ≠ 64 ∧ n = byteLength s) ∧
      (∀ s f, parse s = .error (.notHex f) ↔
        byteLength s = 64 ∧ ∃ b i, f = .badByte b i ∧ FirstNonDigit (Bytes.ofText s) b i) ∧
      (∀ d, parse d.hex = .ok d) ∧
      ∀ d e : Digest, d < e ↔ d.hex < e.hex := by
  refine ⟨fun s => ⟨?_, ?_⟩, fun s d => parse_eq_ok_iff, fun s n => ?_, fun s f => ?_, parse_hex,
    lt_iff_hex_lt⟩
  · rintro ⟨d, hd⟩
    exact (parse_eq_ok_iff.1 hd).1
  · intro hs
    obtain ⟨d, hd, -⟩ := exists_parse_eq hs
    exact ⟨d, hd⟩
  · rw [parse_eq_error_iff]
    constructor
    · rintro (⟨hlength, hn⟩ | ⟨-, b, i, hf, -⟩)
      · exact ⟨hlength, Fault.wrongLength.inj hn⟩
      · cases hf
    · rintro ⟨hlength, rfl⟩
      exact .inl ⟨hlength, rfl⟩
  · rw [parse_eq_error_iff]
    constructor
    · rintro (⟨-, hf⟩ | ⟨hlength, b, i, hf, hfirst⟩)
      · cases hf
      · exact ⟨hlength, b, i, Fault.notHex.inj hf, hfirst⟩
    · rintro ⟨hlength, b, i, rfl, hfirst⟩
      exact .inr ⟨hlength, b, i, rfl, hfirst⟩

/-- A character of two bytes in a text of 64 bytes: the first of them is reported. -/
example : parse (String.ofList ('0' :: 'F' :: 'é' :: List.replicate 60 'z')) =
    .error (.notHex (.badByte 0xC3 2)) := by
  rfl

end Digest

end BlockLedger
