import BlockLedger.Digest
import BlockLedger.Proofs.Text.Encoding

/-!
# Digests as texts

The digits that are written for a digest are read back as that digest (`Digest.parse_hex`). Any other
text of 64 digits stands for a digest, too, and the letter case of its digits makes no difference: the
digest that is read is the one that is written in the same digits in lower case
(`Digest.exists_parse_eq`).
-/

namespace BlockLedger

namespace Hex

/-! ### Digits of either case -/

/-- **A hexadecimal digit** of either case. -/
def IsDigit (c : Char) : Prop := c ∈ "0123456789abcdefABCDEF".toList

instance : DecidablePred IsDigit := fun c =>
  inferInstanceAs (Decidable (c ∈ "0123456789abcdefABCDEF".toList))

/-- A digit is one byte, and stands for the number whose digit it is in lower case. -/
theorem IsDigit.value {c : Char} (h : IsDigit c) :
    c.toNat < 128 ∧ ∃ n < 16, value? (UInt8.ofNat c.toNat) = some n ∧ digit n = c.toLower := by
  -- there are only so many digits, so they are tried out
  have hall : "0123456789abcdefABCDEF".toList.all (fun c => c.toNat < 128 &&
      (value? (UInt8.ofNat c.toNat)).any fun n => n < 16 && digit n = c.toLower) = true := by
    decide
  have hc := List.all_eq_true.1 hall c h
  rw [Bool.and_eq_true, decide_eq_true_iff, Option.any_eq_true] at hc
  obtain ⟨hone, n, hvalue, hn⟩ := hc
  rw [Bool.and_eq_true, decide_eq_true_iff, decide_eq_true_iff] at hn
  exact ⟨hone, n, hn.1, hvalue, hn.2⟩

theorem pair_ofNat {m n : Nat} (hm : m < 16) (hn : n < 16) :
    pair (UInt8.ofNat (16 * m + n)) = [digit m, digit n] := by
  have hvalue : (UInt8.ofNat (16 * m + n)).toNat = 16 * m + n := by
    rw [UInt8.toNat_ofNat']
    omega
  have hhigh : (16 * m + n) / 16 = m := by omega
  have hlow : (16 * m + n) % 16 = n := by omega
  rw [pair, hvalue, hhigh, hlow]

/-- **Digits are read two by two** as bytes that are written in the same digits in lower case. -/
theorem exists_decodePairs_eq {cs : List Char} {n : Nat} (hlength : cs.length = 2 * n)
    (h : ∀ c ∈ cs, IsDigit c) (i : Nat) :
    ∃ bytes, decodePairs i (Bytes.ofChars cs) = .ok bytes ∧
      encode bytes = cs.map Char.toLower ∧ bytes.length = n := by
  induction n generalizing cs i with
  | zero =>
    rw [List.length_eq_zero_iff.1 hlength]
    exact ⟨[], rfl, rfl, rfl⟩
  | succ n ih =>
    -- two digits make a byte, whose halves are at `i` and behind it
    match cs, hlength with
    | a :: b :: cs, hlength =>
      obtain ⟨ha, hb, hcs⟩ := List.forall_mem_cons.1 h |>.imp_right List.forall_mem_cons.1
      obtain ⟨hone, high, hhigh, hvalue, hdigit⟩ := ha.value
      obtain ⟨hone', low, hlow, hvalue', hdigit'⟩ := hb.value
      obtain ⟨bytes, hbytes, hencode, hcount⟩ :=
        ih (by simp only [List.length_cons] at hlength; omega) hcs (i + 2)
      refine ⟨UInt8.ofNat (16 * high + low) :: bytes, ?_, ?_, by rw [List.length_cons, hcount]⟩
      · rw [Bytes.ofChars_cons, Bytes.ofChars_cons, Bytes.utf8_of_lt hone, Bytes.utf8_of_lt hone',
          List.singleton_append, List.singleton_append, decodePairs, hvalue]
        simp only [hvalue', hbytes]
      · rw [encode, List.flatMap_cons, ← encode, hencode, pair_ofNat hhigh hlow, hdigit, hdigit']
        rfl

/-- Digits are one byte each. -/
theorem length_ofChars_digits {cs : List Char} (h : ∀ c ∈ cs, IsDigit c) :
    (Bytes.ofChars cs).length = cs.length := by
  induction cs with
  | nil => rfl
  | cons c cs ih =>
    obtain ⟨hc, hcs⟩ := List.forall_mem_cons.1 h
    rw [Bytes.ofChars_cons, Bytes.utf8_of_lt hc.value.1, List.singleton_append, List.length_cons,
      List.length_cons, ih hcs]

end Hex

namespace Digest

/-- **The digits of a digest** are read back. -/
theorem parse_hex (d : Digest) : parse d.hex = .ok d := by
  have hlength : (Bytes.ofText d.hex).length = 64 := by
    rw [hex, Hex.text, Bytes.ofText, String.toList_ofList, Hex.length_ofChars_encode,
      d.length_bytes]
  rw [parse]
  simp only [hlength, if_true]
  rw [hex, Hex.decode_text]
  exact dif_pos d.length_bytes

theorem hex_inj {d e : Digest} (h : d.hex = e.hex) : d = e := by
  have hparse : (Except.ok d : Except Fault Digest) = .ok e := by
    rw [← parse_hex, ← parse_hex, h]
  exact Except.ok.inj hparse

/-- **A text of 64 digits** of either case. -/
def Spells (s : String) : Prop := s.toList.length = 64 ∧ ∀ c ∈ s.toList, Hex.IsDigit c

/-- **Any 64 digits stand for a digest**, which is written in the same digits in lower case. -/
theorem exists_parse_eq {s : String} (h : Spells s) : ∃ d, parse s = .ok d ∧ d.hex = s.toLower := by
  obtain ⟨hlength, hdigits⟩ := h
  obtain ⟨bytes, hbytes, hencode, hcount⟩ :=
    Hex.exists_decodePairs_eq (n := 32) hlength hdigits 0
  have hsize : (Bytes.ofText s).length = 64 := by
    rw [Bytes.ofText, Hex.length_ofChars_digits hdigits, hlength]
  have hdecode : Hex.decode (Bytes.ofText s) = .ok bytes := by
    rw [Hex.decode, if_neg (by rw [hsize]; decide)]
    exact hbytes
  refine ⟨⟨bytes, hcount⟩, ?_, ?_⟩
  · rw [parse]
    simp only [hsize, if_true, hdecode]
    exact dif_pos hcount
  · have hlower : s.toLower = s.map Char.toLower := rfl
    rw [hex, Hex.text, hencode, hlower]
    exact String.toList_injective (by rw [String.toList_ofList, String.toList_map])

end Digest

end BlockLedger
