import BlockLedger.Text.Unprintable

/-!
# Quoted text

Messages show identifiers, paths and single characters between quotes, so that blanks and controls
in them can be seen: quote and backslash are written behind a backslash, the common controls by a
letter, NUL by a digit, and every other character that would not show by its number in braces. A
text needs its double quotes escaped and a character its single quotes; the other kind of quote is
written as it is.
-/

namespace BlockLedger.Text

/-- Lowercase digits of a number in base sixteen, without leading zeros. -/
def hexNumber (n : Nat) : List Char :=
  Nat.toDigits 16 n

/-- How one character is written between quotes of the kind `quote`. -/
def quoteChar (quote c : Char) : List Char :=
  if c = quote || c = '\\' then ['\\', c]
  else if c = '\n' then ['\\', 'n']
  else if c = '\t' then ['\\', 't']
  else if c = '\r' then ['\\', 'r']
  else if c = '\x00' then ['\\', '0']
  else if isUnprintable c then ['\\', 'u', '\x7b'] ++ hexNumber c.toNat ++ ['\x7d']
  else [c]

/-- The text between double quotes. -/
def quoted (s : String) : String :=
  String.ofList ('"' :: s.toList.flatMap (quoteChar '"') ++ ['"'])

/-- The character between single quotes. -/
def quotedChar (c : Char) : String :=
  String.ofList ('\'' :: quoteChar '\'' c ++ ['\''])

end BlockLedger.Text
