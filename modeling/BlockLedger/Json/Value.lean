import BlockLedger.Bytes

/-!
# Writing JSON

What the library writes is a `Json.Value`: members of an object keep their order, and numbers are
integers. One printer serves two layouts (`Layout`): the compact one, in which a value is one line
without blanks, and the indented one, in which every element stands on a line of its own, two places
further in than its container.

In a string only the quote, the backslash and the characters below the blank are escaped
(`escape`), so the compact form of a value has no control character and no line break in it.
-/

namespace BlockLedger.Json

/-- A value to be written. -/
inductive Value where
  | null
  | bool (b : Bool)
  | integer (n : Int)
  | text (s : String)
  | array (items : List Value)
  | object (members : List (String × Value))
  deriving Inhabited

/-! ### Strings -/

/-- A digit of a number below sixteen, lowercase. -/
def lowDigit (n : Nat) : Char :=
  if n < 10 then Char.ofNat (48 + n) else Char.ofNat (87 + n)

/-- How a character is written inside a string. -/
def escape (c : Char) : List Char :=
  if c = '"' then ['\\', '"']
  else if c = '\\' then ['\\', '\\']
  else if c = '\x08' then ['\\', 'b']
  else if c = '\t' then ['\\', 't']
  else if c = '\n' then ['\\', 'n']
  else if c = '\x0c' then ['\\', 'f']
  else if c = '\r' then ['\\', 'r']
  else if c.toNat < 0x20 then
    ['\\', 'u', '0', '0', lowDigit (c.toNat / 16), lowDigit (c.toNat % 16)]
  else [c]

/-- A string with its quotes. -/
def quote (s : String) : List Char :=
  '"' :: s.toList.flatMap escape ++ ['"']

/-! ### Layouts -/

/-- Where blanks stand between the parts of a value. -/
inductive Layout where
  | compact
  | indented
  deriving DecidableEq, Repr

/-- What stands before an element at the given depth. -/
def Layout.break : Layout → Nat → List Char
  | .compact, _ => []
  | .indented, depth => '\n' :: List.replicate (2 * depth) ' '

/-- What stands between a key and its value. -/
def Layout.colon : Layout → List Char
  | .compact => [':']
  | .indented => [':', ' ']

/-! ### The printer -/

mutual

/-- The text of a value that stands at the given depth. -/
def Value.write (layout : Layout) (depth : Nat) : Value → List Char
  | .null => ['n', 'u', 'l', 'l']
  | .bool true => ['t', 'r', 'u', 'e']
  | .bool false => ['f', 'a', 'l', 's', 'e']
  | .integer n => (toString n).toList
  | .text s => quote s
  | .array [] => ['[', ']']
  | .array (v :: vs) =>
    '[' :: layout.break (depth + 1) ++ v.write layout (depth + 1)
      ++ writeItems layout (depth + 1) vs ++ layout.break depth ++ [']']
  | .object [] => ['\x7b', '\x7d']
  | .object (m :: ms) =>
    '\x7b' :: layout.break (depth + 1) ++ quote m.1 ++ layout.colon
      ++ m.2.write layout (depth + 1) ++ writeMembers layout (depth + 1) ms
      ++ layout.break depth ++ ['\x7d']

/-- Further elements of an array, each behind a comma. -/
def writeItems (layout : Layout) (depth : Nat) : List Value → List Char
  | [] => []
  | v :: vs =>
    ',' :: layout.break depth ++ v.write layout depth ++ writeItems layout depth vs

/-- Further members of an object, each behind a comma. -/
def writeMembers (layout : Layout) (depth : Nat) : List (String × Value) → List Char
  | [] => []
  | m :: ms =>
    ',' :: layout.break depth ++ quote m.1 ++ layout.colon ++ m.2.write layout depth
      ++ writeMembers layout depth ms

end

/-- The value on one line. -/
def Value.compact (v : Value) : String :=
  String.ofList (v.write .compact 0)

/-- The value over several lines. -/
def Value.indented (v : Value) : String :=
  String.ofList (v.write .indented 0)

/-- A natural number as a value. -/
def Value.nat (n : Nat) : Value := .integer n

/-- A value that may be missing. -/
def Value.optional {α : Type} (f : α → Value) : Option α → Value
  | none => .null
  | some a => f a

end BlockLedger.Json
