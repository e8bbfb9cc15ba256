/-!
# TOML strings

A string stands between double or single quotes, and either kind may be tripled to span several
lines. Between double quotes a backslash starts an escape, and at the end of a line it joins the
lines; between single quotes every character stands for itself. A line feed right behind the opening
of a string over several lines is not part of it.

Writing picks the plainest kind that can hold the text (`quoted`): double quotes, single quotes, their
tripled forms, and escapes only where nothing else is left.
-/

namespace BlockLedger.Toml

/-- Whether a character other than quotes, backslash and line feed may stand for itself. -/
def isPlain (c : Char) : Bool := c = '\t' || 0x20 ≤ c.toNat && c.toNat ≠ 0x7F

/-- The value of a hexadecimal digit. -/
def hexDigit? (c : Char) : Option Nat :=
  if '0' ≤ c ∧ c ≤ '9' then some (c.toNat - 48)
  else if 'a' ≤ c ∧ c ≤ 'f' then some (c.toNat - 87)
  else if 'A' ≤ c ∧ c ≤ 'F' then some (c.toNat - 55)
  else none

/-- The character with the number that some digits write. -/
def numbered? (digits : List Char) : Option Char := do
  let n ← digits.foldlM (fun n c => (hexDigit? c).map (16 * n + ·)) 0
  if h : n.isValidChar then some (Char.ofNatAux n h) else none

/-- The character for a one-letter escape. -/
def escape? (c : Char) : Option Char :=
  if c = 'b' then some '\x08'
  else if c = 't' then some '\t'
  else if c = 'n' then some '\n'
  else if c = 'f' then some '\x0c'
  else if c = 'r' then some '\r'
  else if c = '"' then some '"'
  else if c = '\\' then some '\\'
  else none

/-- Whether nothing but spaces is left on a line. -/
def endsLine (cs : List Char) : Bool :=
  match cs.dropWhile fun c => c = ' ' || c = '\t' with
  | '\n' :: _ => true
  | '\r' :: '\n' :: _ => true
  | _ => false

/-! ### Reading

Each reader starts behind the opening quotes and gives the string with the text behind the closing
ones; `read` holds what has been read, last character first. -/

/-- A string between double quotes. -/
def basicBody (read : List Char) : List Char → Option (String × List Char)
  | [] => none
  | '"' :: rest => some (String.ofList read.reverse, rest)
  | '\\' :: 'u' :: a :: b :: c :: d :: rest => do
    basicBody ((← numbered? [a, b, c, d]) :: read) rest
  | '\\' :: 'U' :: a :: b :: c :: d :: e :: f :: g :: h :: rest => do
    basicBody ((← numbered? [a, b, c, d, e, f, g, h]) :: read) rest
  | '\\' :: c :: rest => do basicBody ((← escape? c) :: read) rest
  | c :: rest => if isPlain c && c ≠ '\\' then basicBody (c :: read) rest else none

/-- A string between single quotes. -/
def literalBody (read : List Char) : List Char → Option (String × List Char)
  | [] => none
  | '\'' :: rest => some (String.ofList read.reverse, rest)
  | c :: rest => if isPlain c then literalBody (c :: read) rest else none

/-- Up to two quotes in front of the closing three belong to the string. -/
def closing (quote : Char) (read : List Char) : List Char → String × List Char
  | a :: b :: rest =>
    if a = quote && b = quote then (String.ofList (quote :: quote :: read).reverse, rest)
    else if a = quote then (String.ofList (quote :: read).reverse, b :: rest)
    else (String.ofList read.reverse, a :: b :: rest)
  | [a] =>
    if a = quote then (String.ofList (quote :: read).reverse, [])
    else (String.ofList read.reverse, [a])
  | [] => (String.ofList read.reverse, [])

/-- A string over several lines between double quotes; `joining` says that blanks are left out,
because the line before has been joined to this one. -/
def basicLines (joining : Bool) (read : List Char) : List Char → Option (String × List Char)
  | [] => none
  | '"' :: '"' :: '"' :: rest => some (closing '"' read rest)
  | '\n' :: rest => basicLines joining (if joining then read else '\n' :: read) rest
  | '\r' :: '\n' :: rest => basicLines joining (if joining then read else '\n' :: read) rest
  | '\\' :: 'u' :: a :: b :: c :: d :: rest => do
    basicLines false ((← numbered? [a, b, c, d]) :: read) rest
  | '\\' :: 'U' :: a :: b :: c :: d :: e :: f :: g :: h :: rest => do
    basicLines false ((← numbered? [a, b, c, d, e, f, g, h]) :: read) rest
  | '\\' :: c :: rest =>
    match escape? c with
    | some e => basicLines false (e :: read) rest
    | none =>
      if c = '\n' then basicLines true read rest
      else if endsLine (c :: rest) then basicLines true read rest
      else none
  | c :: rest =>
    if joining && (c = ' ' || c = '\t') then basicLines true read rest
    else if isPlain c && c ≠ '\\' then basicLines false (c :: read) rest
    else none

/-- A string over several lines between single quotes. -/
def literalLines (read : List Char) : List Char → Option (String × List Char)
  | [] => none
  | '\'' :: '\'' :: '\'' :: rest => some (closing '\'' read rest)
  | '\n' :: rest => literalLines ('\n' :: read) rest
  | '\r' :: '\n' :: rest => literalLines ('\n' :: read) rest
  | c :: rest => if isPlain c then literalLines (c :: read) rest else none

/-- A text without the line feed in front. -/
def withoutFeed : List Char → List Char
  | '\n' :: rest => rest
  | '\r' :: '\n' :: rest => rest
  | rest => rest

/-- A string on one line. -/
def lineString : List Char → Option (String × List Char)
  | '"' :: rest => basicBody [] rest
  | '\'' :: rest => literalBody [] rest
  | _ => none

/-- **A string of any kind.** -/
def string : List Char → Option (String × List Char)
  | '"' :: '"' :: '"' :: rest => basicLines false [] (withoutFeed rest)
  | '\'' :: '\'' :: '\'' :: rest => literalLines [] (withoutFeed rest)
  | cs => lineString cs

/-! ### Writing -/

/-- Whether a character needs an escape wherever it stands; a tab and a line feed have other
ways. -/
def isControl (c : Char) : Bool :=
  (c.toNat < 0x20 && c ≠ '\t' && c ≠ '\n') || c.toNat = 0x7F

/-- The length of the longest run of a character. -/
def longestRun (c : Char) (cs : List Char) : Nat :=
  (cs.foldl (fun (best, run) d =>
    if d = c then (max best (run + 1), run + 1) else (best, 0)) (0, 0)).1

/-- A digit in upper case. -/
def upperDigit (n : Nat) : Char := if n < 10 then Char.ofNat (48 + n) else Char.ofNat (55 + n)

/-- How a character is written between double quotes. -/
def escaped (c : Char) : List Char :=
  if c = '\x08' then ['\\', 'b']
  else if c = '\t' then ['\\', 't']
  else if c = '\n' then ['\\', 'n']
  else if c = '\x0c' then ['\\', 'f']
  else if c = '\r' then ['\\', 'r']
  else if c = '"' then ['\\', '"']
  else if c = '\\' then ['\\', '\\']
  else if isControl c then
    ['\\', 'u', '0', '0', upperDigit (c.toNat / 16), upperDigit (c.toNat % 16)]
  else [c]

/-- How characters are written between tripled double quotes: line feeds stand for themselves, and so
do quotes, of which no more than two may come together; `run` counts those just before. -/
def escapedLines (run : Nat) : List Char → List Char
  | [] => []
  | '\n' :: rest => '\n' :: escapedLines 0 rest
  | '"' :: rest =>
    if run < 2 then '"' :: escapedLines (run + 1) rest else escaped '"' ++ escapedLines 0 rest
  | c :: rest => escaped c ++ escapedLines 0 rest

/-- The kinds of strings. -/
inductive Style where
  | basic
  | literal
  | basicLines
  | literalLines
  deriving DecidableEq, Repr

/-- The kind in which a text is written. -/
def styleOf (cs : List Char) : Style :=
  let control := cs.any isControl
  let feeds := cs.contains '\n'
  if !control && !cs.contains '\\' && !cs.contains '"' && !feeds then .basic
  else if !control && !cs.contains '\'' && !feeds then .literal
  else if !control && !cs.contains '\\' && longestRun '"' cs ≤ 2 then .basicLines
  else if !control && longestRun '\'' cs ≤ 2 then .literalLines
  else if feeds then .basicLines
  else .basic

/-- What stands before and behind a string of a kind. -/
def Style.quotes : Style → List Char
  | .basic => ['"']
  | .literal => ['\'']
  | .basicLines => ['"', '"', '"']
  | .literalLines => ['\'', '\'', '\'']

/-- The characters of a text in a kind. -/
def Style.body : Style → List Char → List Char
  | .basic, cs => cs.flatMap escaped
  | .basicLines, cs => escapedLines 0 cs
  | _, cs => cs

/-- **A text as a string**, in the plainest kind. -/
def quoted (s : String) : String :=
  let cs := s.toList
  let style := styleOf cs
  let opening := style.quotes ++
    (if cs.contains '\n' && (style = .basicLines || style = .literalLines) then ['\n'] else [])
  String.ofList (opening ++ style.body cs ++ style.quotes)

end BlockLedger.Toml
