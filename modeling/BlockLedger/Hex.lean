import BlockLedger.Bytes
import BlockLedger.Text.Quoted

/-!
# Hexadecimal

Bytes are written as two lowercase digits each and read from digits of either case. Reading works on
the bytes of the text: an odd number of them is refused first, and otherwise the first byte that is
no digit is reported with its place.
-/

namespace BlockLedger.Hex

/-- Why a text is not the hexadecimal form of any bytes. -/
inductive Fault where
  | oddLength
  | badByte (byte : UInt8) (index : Nat)
  deriving DecidableEq, Repr

/-- The message for a fault. A byte is shown as the character with its number. -/
def Fault.message : Fault → String
  | .oddLength => "Odd number of digits"
  | .badByte b i =>
    "Invalid character " ++ Text.quotedChar (Char.ofNat b.toNat) ++ " at position " ++ toString i

/-! ### Writing -/

/-- The lowercase digit for a number below sixteen. -/
def digit (n : Nat) : Char :=
  if n < 10 then Char.ofNat (48 + n) else Char.ofNat (87 + n)

/-- The two digits of a byte, the high half first. -/
def pair (b : UInt8) : List Char :=
  [digit (b.toNat / 16), digit (b.toNat % 16)]

/-- The digits of a byte string. -/
def encode (b : Bytes) : List Char :=
  b.flatMap pair

/-- The digits of a byte string, as a text. -/
def text (b : Bytes) : String :=
  String.ofList (encode b)

/-! ### Reading -/

/-- The number a digit stands for, the digit given as a byte. -/
def value? (b : UInt8) : Option Nat :=
  let n := b.toNat
  if 48 ≤ n ∧ n ≤ 57 then some (n - 48)
  else if 97 ≤ n ∧ n ≤ 102 then some (n - 87)
  else if 65 ≤ n ∧ n ≤ 70 then some (n - 55)
  else none

/-- Reads digits two by two; `i` is the place of the first one. -/
def decodePairs : Nat → Bytes → Except Fault Bytes
  | i, h :: l :: rest =>
    match value? h with
    | none => .error (.badByte h i)
    | some high =>
      match value? l with
      | none => .error (.badByte l (i + 1))
      | some low =>
        match decodePairs (i + 2) rest with
        | .error f => .error f
        | .ok bytes => .ok (UInt8.ofNat (16 * high + low) :: bytes)
  | _, _ => .ok []

/-- The bytes whose digits, in either case, are the given text. -/
def decode (digits : Bytes) : Except Fault Bytes :=
  if digits.length % 2 = 1 then .error .oddLength else decodePairs 0 digits

end BlockLedger.Hex
