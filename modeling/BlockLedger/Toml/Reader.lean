import BlockLedger.Toml.Quoted
import BlockLedger.Toml.Scalar
import BlockLedger.Toml.Table

/-!
# Reading TOML

A document is read line by line: a line is blank, holds a comment, opens a table with a header, or
gives a value to a key. Arrays may span lines, and so may strings in tripled quotes; tables between
braces stay on one line. `parse` reads the lines and puts them together to a table.

Nothing is said about what is wrong with a document that is refused.
-/

namespace BlockLedger.Toml

/-- A reader of something at the front of a text. -/
abbrev Reader (α : Type) : Type := StateT (List Char) Option α

/-! ### Blanks, comments and ends of lines -/

/-- Whether a character is a space or a tab. -/
def isSpace (c : Char) : Bool := c = ' ' || c = '\t'

/-- Skips spaces and tabs. -/
def skipSpaces : Reader Unit := modify fun cs => cs.dropWhile isSpace

/-- Takes the given character. -/
def expect (c : Char) : Reader Unit := fun cs => (takeCharacter c cs).map ((), ·)

/-- Takes the given character if it comes next. -/
def accept (c : Char) : Reader Bool := fun cs =>
  match takeCharacter c cs with
  | some rest => some (true, rest)
  | none => some (false, cs)

/-- Takes the end of a line, unless the text ends. -/
def endOfLine : Reader Unit := fun cs =>
  match cs with
  | [] => some ((), [])
  | '\n' :: rest => some ((), rest)
  | '\r' :: '\n' :: rest => some ((), rest)
  | _ => none

/-- Takes what may stand behind the last word of a line, and the end of the line. -/
def restOfLine : Reader Unit := do
  skipSpaces
  if ← accept '#' then modify fun cs => cs.dropWhile isPlain
  endOfLine

/-- The text behind blanks, ends of lines and comments; `comment` says that one has begun. -/
def dropLoose (comment : Bool) : List Char → List Char
  | '\n' :: rest => dropLoose false rest
  | '\r' :: '\n' :: rest => dropLoose false rest
  | c :: rest =>
    if comment then (if isPlain c then dropLoose true rest else c :: rest)
    else if isSpace c then dropLoose false rest
    else if c = '#' then dropLoose true rest
    else c :: rest
  | [] => []

/-- Skips blanks, ends of lines and comments. -/
def skipLoose : Reader Unit := modify (dropLoose false)

/-! ### Keys -/

/-- Whether a character can stand in a key without quotes. -/
def isKeyCharacter (c : Char) : Bool := c.isAlphanum || c = '-' || c = '_'

/-- A key without dots. -/
def simpleKey : Reader String := fun cs =>
  match lineString cs with
  | some r => some r
  | none =>
    match cs.span isKeyCharacter with
    | ([], _) => none
    | (key, rest) => some (String.ofList key, rest)

/-- The steps of a dotted key, at most `n` of them, with the blanks around them. -/
def keySteps : Nat → Reader (List String)
  | 0 => failure
  | n + 1 => do
    skipSpaces
    let step ← simpleKey
    skipSpaces
    if ← accept '.' then return step :: (← keySteps n) else return [step]

/-- How deep containers may lie, and how many steps a key may have. -/
def depthLimit : Nat := 79

/-- A dotted key: the steps on the way and the last one. -/
def dottedKey : Reader (List String × String) := do
  let steps ← keySteps depthLimit
  match steps.getLast? with
  | some key => return (steps.dropLast, key)
  | none => failure

/-! ### Values -/

/-- Takes a word. -/
def word : Reader (List Char) := fun cs => some (cs.span isWordCharacter)

/-- Takes the time of day behind a date and a space, if there is one. -/
def timeBehindDate : Reader Unit := fun cs =>
  match cs with
  | ' ' :: rest =>
    let (time, behind) := rest.span isWordCharacter
    if isTimeWithOffset time then some ((), behind) else some ((), cs)
  | _ => some ((), cs)

/-- A value that is a word. -/
def scalar : Reader Value := do
  let w ← word
  if w = ['t', 'r', 'u', 'e'] || w = ['f', 'a', 'l', 's', 'e'] then return .bool
  else if isDate w then
    timeBehindDate
    return .time
  else if isTime w then return .time
  else if isFloat w then return .float
  else match integer? w with
    | some n => return .integer n
    | none => failure

/-- The elements of an array from behind its bracket, at most `n` of them; `read` holds those read so
far, last one first. -/
def arrayItems (item : Reader Value) : Nat → List Value → Reader (List Value)
  | 0, _ => failure
  | n + 1, read => do
    skipLoose
    if ← accept ']' then return read.reverse
    let v ← item
    skipLoose
    if ← accept ',' then arrayItems item n (v :: read)
    else
      expect ']'
      return (v :: read).reverse

/-- A key with its value. -/
def pair (item : Reader Value) : Reader Pair := do
  let (path, key) ← dottedKey
  expect '='
  skipSpaces
  return ⟨path, key, ← item⟩

/-- The pairs of a table between braces, at most `n` of them. -/
def bracePairs (item : Reader Value) : Nat → List Pair → Reader (List Pair)
  | 0, _ => failure
  | n + 1, read => do
    let p ← pair item
    skipSpaces
    if ← accept ',' then bracePairs item n (p :: read)
    else
      expect '\x7d'
      return (p :: read).reverse

/-- A table between braces, from behind the first one. -/
def braces (item : Reader Value) : Reader Value := do
  skipSpaces
  if ← accept '\x7d' then return .table .braces []
  let pairs ← bracePairs item ((← get).length + 1) []
  match Members.add [] pairs with
  | some ms => return .table .braces ms
  | none => failure

/-- A value that is no container. -/
def plainValue : Reader Value := do
  match ← get with
  | c :: cs =>
    if c = '"' || c = '\'' then
      match string (c :: cs) with
      | some (s, rest) =>
        set rest
        return .text s
      | none => failure
    else scalar
  | [] => failure

/-- A value with containers at most `n` deep. -/
def value : Nat → Reader Value
  | 0 => plainValue
  | n + 1 => do
    match ← get with
    | '[' :: rest =>
      set rest
      return .array (← arrayItems (value n) (rest.length + 1) [])
    | '\x7b' :: rest =>
      set rest
      braces (value n)
    | _ => plainValue

/-! ### Documents -/

/-- A header, from behind its first bracket. -/
def header : Reader Header := do
  let listed ← accept '['
  let (path, key) ← dottedKey
  expect ']'
  if listed then expect ']'
  return ⟨path, key, listed⟩

/-- One line; `none` if it says nothing. -/
def line : Reader (Option Line) := do
  skipSpaces
  match ← get with
  | [] => return none
  | '#' :: _ =>
    restOfLine
    return none
  | '\n' :: _ =>
    endOfLine
    return none
  | '\r' :: _ =>
    endOfLine
    return none
  | '[' :: rest =>
    set rest
    let h ← header
    restOfLine
    return some (.header h)
  | _ =>
    let p ← pair (value depthLimit)
    restOfLine
    return some (.pair p)

/-- The lines of a text, at most `n` of them. -/
def lines : Nat → Reader (List Line)
  | 0 => failure
  | n + 1 => do
    if (← get).isEmpty then return []
    match ← line with
    | none => lines n
    | some l => return l :: (← lines n)

/-- The text without the mark of its byte order. -/
def withoutMark : List Char → List Char
  | '\ufeff' :: rest => rest
  | rest => rest

/-- **The table that a text describes.** -/
def parse (s : String) : Option Members := do
  let cs := withoutMark s.toList
  let (ls, _) ← (lines (cs.length + 1)).run cs
  documentOf ls

end BlockLedger.Toml
