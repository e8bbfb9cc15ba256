import BlockLedger.Pieces
import BlockLedger.Text.Unstyled

/-!
# Arguments

What a command takes is described by a `Shape`: arguments behind a name, some of which only switch
something on, and perhaps one argument without a name. Reading goes over the words from left to
right. A word that starts with dashes is a name, until a word of two dashes ends all names; every
other word is a value, for the name in front of it if that still waits for one.

A value is looked at no sooner than the next argument begins, or the words end. So a word that
belongs nowhere is found before a bad value in front of it.
-/

namespace BlockLedger.Command

/-! ### Why reading ends early -/

/-- Why words make no command: they do not fit, a value is refused with a message, or they ask for
information on commands instead. -/
inductive Halt where
  | usage
  | value (label text message : String)
  | information
  deriving DecidableEq, Repr

namespace Halt

/-- The exit code. -/
def exitCode : Halt → Nat
  | .information => 0
  | _ => 2

/-- A text up to its first line break. -/
def firstLine (s : String) : String :=
  let line := ((pieces '\n' s.toList).head?).getD []
  String.ofList (if line.length < s.length && line.getLast? = some '\r' then line.dropLast else line)

/-- The first line of what is said about a value. -/
def headline : Halt → Option String
  | .value label text message =>
    some (firstLine (Text.unstyled
      (Text.emphasized "error:" ++ " invalid value '" ++ Text.emphasized text ++ "' for '"
        ++ Text.emphasized label ++ "': " ++ message)))
  | _ => none

end Halt

/-! ### What a command takes -/

/-- An argument with values: how messages call it, whether it may be given more than once, and how a
value is read into what has been read so far. A value may be refused with or without a message. -/
structure Slot (α : Type) where
  label : String
  many : Bool
  read : String → α → Except (Option String) α

/-- An argument behind a name: a switch, or one with a value. -/
inductive Named (α : Type) where
  | switch (set : α → α)
  | slot (slot : Slot α)

/-- **What a command takes**: its arguments behind names, its argument without a name, the names and
letters that ask for information, and the words at which another command begins. -/
structure Shape (α : Type) where
  named : List (String × Named α)
  positional : Option (Slot α) := none
  questions : List (String × Char) := [("help", 'h')]
  verbs : List String := []

/-- How far reading has come: what has been read, the arguments that have been given, the values of
the last argument, which have not been looked at, and whether all further words are values. -/
structure Progress (α : Type) where
  value : α
  given : List String := []
  pending : Option (Slot α × List String) := none
  trailing : Bool := false

namespace Progress

variable {α : Type} (p : Progress α)

/-- Whether a name waits for its value. -/
def awaits : Bool :=
  match p.pending with
  | some (_, []) => true
  | _ => false

/-- Reads values into a slot, one after the other. -/
def readAll (s : Slot α) : α → List String → Except Halt α
  | a, [] => .ok a
  | a, v :: vs =>
    match s.read v a with
    | .ok a => readAll s a vs
    | .error none => .error .usage
    | .error (some message) => .error (.value s.label v message)

/-- Reads the values given for an argument. -/
def store (s : Slot α) (values : List String) : Except Halt (Progress α) :=
  if values = [] || (!s.many && p.given.contains s.label) then .error .usage
  else match readAll s p.value values with
    | .error h => .error h
    | .ok a => .ok { p with value := a, given := s.label :: p.given, pending := none }

/-- Looks at the values of the last argument. -/
def settle : Except Halt (Progress α) :=
  match p.pending with
  | none => .ok p
  | some (s, values) => p.store s values

/-- Switches something on. -/
def switchOn (name : String) (set : α → α) : Except Halt (Progress α) :=
  match p.settle with
  | .error h => .error h
  | .ok p =>
    if p.given.contains name then .error .usage
    else .ok { p with value := set p.value, given := name :: p.given }

/-- Ends with the wish for information, unless the last argument is wrong. -/
def inform : Except Halt (Progress α) :=
  match p.settle with
  | .error h => .error h
  | .ok _ => .error .information

end Progress

namespace Shape

variable {α : Type} (g : Shape α)

/-- A value for the argument without a name. -/
def place (p : Progress α) (word : String) : Except Halt (Progress α) :=
  match g.positional with
  | none => .error .usage
  | some s =>
    match p.pending with
    | some (t, values) =>
      if t.label = s.label then
        if s.many then .ok { p with pending := some (s, values ++ [word]) } else .error .usage
      else if !s.many && p.given.contains s.label then .error .usage
      else match p.settle with
        | .error h => .error h
        | .ok p => .ok { p with pending := some (s, [word]) }
    | none =>
      if !s.many && p.given.contains s.label then .error .usage
      else .ok { p with pending := some (s, [word]) }

/-- A name behind two dashes, perhaps with a value behind an equals sign. -/
def long (p : Progress α) (text : List Char) : Except Halt (Progress α) :=
  let name := String.ofList (text.takeWhile (· ≠ '='))
  let attached := (text.dropWhile (· ≠ '=')).tail?
  match g.named.lookup name, attached with
  | some (.switch set), none => p.switchOn name set
  | some (.switch _), some _ => .error .usage
  | some (.slot s), some v =>
    match p.settle with
    | .error h => .error h
    | .ok p => p.store s [String.ofList v]
  | some (.slot s), none =>
    match p.settle with
    | .error h => .error h
    | .ok p => .ok { p with pending := some (s, []) }
  | none, none => if (g.questions.lookup name).isSome then p.inform else .error .usage
  | none, some _ => .error .usage

/-- A letter behind a single dash. -/
def short (p : Progress α) (letter : Char) : Except Halt (Progress α) :=
  if g.questions.any (·.2 = letter) then p.inform else .error .usage

/-- **One word.** -/
def step (p : Progress α) (word : String) : Except Halt (Progress α) :=
  if p.trailing then g.place p word
  else match word.toList with
    | ['-', '-'] => .ok { p with trailing := true }
    | '-' :: '-' :: text => g.long p text
    | '-' :: letter :: _ => g.short p letter
    | _ =>
      match p.pending with
      | some (s, []) => .ok { p with pending := some (s, [word]) }
      | _ => g.place p word

/-- Whether another command begins with a word. -/
def begins (p : Progress α) (word : String) : Bool :=
  !p.trailing && !p.awaits && g.verbs.contains word

/-- **Reads words** up to the one with which another command begins. -/
def read (p : Progress α) : List String → Except Halt (Progress α × List String)
  | [] => .ok (p, [])
  | word :: words =>
    if g.begins p word then .ok (p, word :: words)
    else match g.step p word with
      | .error h => .error h
      | .ok p => read p words

end Shape

end BlockLedger.Command
