import BlockLedger.Hex
import Mathlib.Tactic.SplitIfs

/-!
# Texts as bytes

The UTF-8 form of a text is read back as that text (`Bytes.text?_ofText`). A character below 128 is
one byte, the character itself, and all bytes of other characters are at least 128
(`Bytes.eq_or_le_of_mem_utf8`), so no byte of a text is smaller than the characters it is made of.

Two digits are written for a byte, the high half first, and they are read back as that byte
(`Hex.decode_text`).
-/

namespace BlockLedger

namespace Bytes

/-! ### UTF-8 -/

theorem toByteArray_ofChars (cs : List Char) : (ofChars cs).toByteArray = cs.utf8Encode := rfl

/-- **The UTF-8 form of a text** is the UTF-8 form of that text and of no other. -/
theorem text?_ofText (s : String) : text? (ofText s) = some s := by
  have hbytes : (ofText s).toByteArray = s.toByteArray := by
    rw [ofText, toByteArray_ofChars, String.utf8Encode_toList]
  rw [text?, hbytes, String.fromUTF8?, dif_pos s.isValidUTF8]
  rfl

/-- The bytes that a text has been read from are its UTF-8 form. -/
theorem ofText_of_text? {b : Bytes} {s : String} (h : text? b = some s) : ofText s = b := by
  have hbytes : s.toByteArray = b.toByteArray := by
    unfold text? String.fromUTF8? at h
    split_ifs at h
    cases h
    rfl
  refine List.toByteArray_inj.1 ?_
  rw [ofText, toByteArray_ofChars, String.utf8Encode_toList, hbytes]

theorem ofText_ne_nil {s : String} (h : s ≠ "") : ofText s ≠ [] := by
  intro hnil
  have hread := text?_ofText s
  have hempty : text? [] = some "" := text?_ofText ""
  rw [hnil, hempty] at hread
  exact h (Option.some.inj hread).symm

/-- The bytes of a character are the character itself, or are all at least 128. -/
theorem eq_or_le_of_mem_utf8 {c : Char} {b : UInt8} (h : b ∈ String.utf8EncodeChar c) :
    b.toNat = c.toNat ∨ 128 ≤ b.toNat := by
  have hc : c.val.toNat = c.toNat := rfl
  simp only [String.utf8EncodeChar, hc] at h
  -- one to four bytes; the first of several bytes and all others have the highest bit set
  split_ifs at h <;> simp only [List.mem_cons, List.not_mem_nil, or_false] at h
  · left
    rw [h, UInt8.toNat_ofNat']
    omega
  · right
    rcases h with rfl | rfl <;> rw [UInt8.toNat_ofNat'] <;> omega
  · right
    rcases h with rfl | rfl | rfl <;> rw [UInt8.toNat_ofNat'] <;> omega
  · right
    rcases h with rfl | rfl | rfl | rfl <;> rw [UInt8.toNat_ofNat'] <;> omega

/-- A character below 128 is one byte. -/
theorem utf8_of_lt {c : Char} (h : c.toNat < 128) :
    String.utf8EncodeChar c = [UInt8.ofNat c.toNat] :=
  if_pos (Nat.le_of_lt_succ h)

/-- **No byte of a text is smaller** than its characters are. -/
theorem le_of_mem_ofChars {n : Nat} (hn : n ≤ 128) {cs : List Char} (h : ∀ c ∈ cs, n ≤ c.toNat)
    {b : UInt8} (hb : b ∈ ofChars cs) : n ≤ b.toNat := by
  rw [ofChars, List.mem_flatMap] at hb
  obtain ⟨c, hc, hb⟩ := hb
  rcases eq_or_le_of_mem_utf8 hb with heq | hle
  · exact heq ▸ h c hc
  · exact Nat.le_trans hn hle

end Bytes

namespace Hex

/-! ### Hexadecimal digits -/

theorem toNat_digit_lt {n : Nat} (h : n < 16) : (digit n).toNat < 128 := by
  have hall : ∀ n < 16, (digit n).toNat < 128 := by decide
  exact hall n h

/-- The byte of a digit stands for the number the digit has been written for. -/
theorem value?_digit {n : Nat} (h : n < 16) : value? (UInt8.ofNat (digit n).toNat) = some n := by
  have hall : ∀ n < 16, value? (UInt8.ofNat (digit n).toNat) = some n := by decide
  exact hall n h

/-- The two digits of a byte, as bytes. -/
theorem ofChars_pair (b : UInt8) :
    Bytes.ofChars (pair b) =
      [UInt8.ofNat (digit (b.toNat / 16)).toNat, UInt8.ofNat (digit (b.toNat % 16)).toNat] := by
  have hb : b.toNat < 256 := b.toNat_lt
  rw [pair, Bytes.ofChars_cons, Bytes.ofChars_cons, Bytes.ofChars_nil,
    Bytes.utf8_of_lt (toNat_digit_lt (by omega)), Bytes.utf8_of_lt (toNat_digit_lt (by omega))]
  rfl

/-- Digits written for bytes are read two by two. -/
theorem decodePairs_encode (i : Nat) (bytes : Bytes) :
    decodePairs i (Bytes.ofChars (encode bytes)) = .ok bytes := by
  induction bytes generalizing i with
  | nil => rfl
  | cons b bytes ih =>
    have hb : b.toNat < 256 := b.toNat_lt
    have hhalves : 16 * (b.toNat / 16) + b.toNat % 16 = b.toNat := by omega
    rw [encode, List.flatMap_cons, Bytes.ofChars_append, ofChars_pair, List.cons_append,
      List.singleton_append, decodePairs, value?_digit (by omega), value?_digit (by omega)]
    simp only
    rw [← encode, ih, hhalves, UInt8.ofNat_toNat]

/-- Two digits are written for each byte. -/
theorem length_ofChars_encode (bytes : Bytes) :
    (Bytes.ofChars (encode bytes)).length = 2 * bytes.length := by
  induction bytes with
  | nil => rfl
  | cons b bytes ih =>
    rw [encode, List.flatMap_cons, Bytes.ofChars_append, ofChars_pair, ← encode,
      List.length_append, List.length_cons, List.length_singleton, List.length_cons, ih]
    omega

/-- **Bytes in hexadecimal** are read back. -/
theorem decode_text (bytes : Bytes) : decode (Bytes.ofText (text bytes)) = .ok bytes := by
  have hlength := length_ofChars_encode bytes
  rw [Bytes.ofText, text, String.toList_ofList, decode, if_neg (by omega), decodePairs_encode]

end Hex

end BlockLedger
