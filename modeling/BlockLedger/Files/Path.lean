import BlockLedger.Bytes
import BlockLedger.Pieces

/-!
# Paths

A path is a text whose names are separated by slashes. It starts at the root of all files if it
begins with a slash, and otherwise at the directory one is in. Empty names and the name `.` inside a
path say nothing, so the path of a parent directory has none of them at its end (`Path.parent?`).
-/

namespace BlockLedger.Path

/-- Whether a path starts at the root. -/
def isAbsolute (path : String) : Bool := path.toList.head? = some '/'

/-- Whether a path ends with a slash. -/
def endsWithSlash (path : String) : Bool := path.toList.getLast? = some '/'

/-- The names between the slashes. -/
def names (path : String) : List String :=
  ((pieces '/' path.toList).filter (· ≠ [])).map String.ofList

/-- A path seen from a directory. -/
def join (directory path : String) : String :=
  if isAbsolute path then path
  else if directory = "" || endsWithSlash directory then directory ++ path
  else directory ++ "/" ++ path

/-! ### Parents

The characters of a path are looked at from the end, so here they stand in reverse order. The first
`fixed` characters of the path, a slash or a dot that stands for the directory one is in, are never
taken away.
-/

/-- The number of characters at the front that belong to the starting point. -/
def fixed (path : List Char) : Nat :=
  match path with
  | '/' :: _ => 1
  | ['.'] => 1
  | '.' :: '/' :: _ => 1
  | _ => 0

/-- Takes away names that say nothing, from the end of a reversed text; `body` is the part that may
be taken. -/
def dropIdle : List Char → List Char
  | '/' :: rest => dropIdle rest
  | ['.'] => []
  | '.' :: '/' :: rest => dropIdle rest
  | body => body

/-- Takes away the last name and the slash before it. -/
def dropName (body : List Char) : List Char :=
  (body.dropWhile (· ≠ '/')).tail

/-- **The directory a path lies in**, if it is not the root itself. -/
def parent? (path : String) : Option String :=
  let cs := path.toList
  let front := cs.take (fixed cs)
  match dropIdle (cs.drop (fixed cs)).reverse with
  | [] => if front = ['.'] then some "" else none
  | body => some (String.ofList (front ++ (dropIdle (dropName body)).reverse))

end BlockLedger.Path
