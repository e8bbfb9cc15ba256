import BlockLedger.Bytes

/-!
# Counts as arguments

A count is written with decimal digits, perhaps behind a plus sign, and fits 64 bits. The first digit
that is none, or that makes the count too large, decides what is wrong with a text.
-/

namespace BlockLedger.Command

/-- Why a text is no count. -/
inductive CountFault where
  | empty
  | notDigit
  | tooLarge
  deriving DecidableEq, Repr

def CountFault.message : CountFault → String
  | .empty => "cannot parse integer from empty string"
  | .notDigit => "invalid digit found in string"
  | .tooLarge => "number too large to fit in target type"

/-- Reads digits behind a number. -/
def readDigits (n : Nat) : List Char → Except CountFault Nat
  | [] => .ok n
  | c :: cs =>
    if !c.isDigit then .error .notDigit
    else
      let n := 10 * n + (c.toNat - 48)
      if unsignedLimit ≤ n then .error .tooLarge else readDigits n cs

/-- **Reading a count.** -/
def readCount (s : String) : Except CountFault Nat :=
  match s.toList with
  | [] => .error .empty
  | ['+'] => .error .notDigit
  | '+' :: digits => readDigits 0 digits
  | digits => readDigits 0 digits

end BlockLedger.Command
