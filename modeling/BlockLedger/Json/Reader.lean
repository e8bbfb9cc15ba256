import BlockLedger.Json.Scan

/-!
# Reading values of a known shape

A `Reader` takes from the front of a text the one value it is asked for. It works strictly from left
to right, so of several faults in a text the one that comes first is reported, whether it lies in the
spelling or in the content.

Records are described by their fields (`Record`). They may be given as an object, whose members come
in any order, unknown ones being skipped and repeated ones refused, or as an array of their fields in
order, where optional fields may be missing at the end.
-/

namespace BlockLedger.Json

/-- **A reader** of a value at the front of a text. -/
def Reader (α : Type) : Type := List Char → Except Fault (α × List Char)

namespace Reader

variable {α β : Type}

instance : Monad Reader where
  pure a := fun cs => .ok (a, cs)
  bind r f := fun cs =>
    match r cs with
    | .error e => .error e
    | .ok (a, rest) => f a rest

@[simp] theorem pure_apply (a : α) (cs : List Char) : (pure a : Reader α) cs = .ok (a, cs) := rfl

theorem bind_apply (r : Reader α) (f : α → Reader β) (cs : List Char) :
    (r >>= f) cs = match r cs with
      | .error e => .error e
      | .ok (a, rest) => f a rest := rfl

theorem bind_of_ok {r : Reader α} {f : α → Reader β} {cs rest : List Char} {a : α}
    (h : r cs = .ok (a, rest)) : (r >>= f) cs = f a rest := by
  rw [bind_apply, h]

/-- Refuses the text. -/
def fail (f : Fault) : Reader α := fun _ => .error f

/-- Refuses the content. -/
def mismatch (m : Mismatch) : Reader α := fail (.content m)

/-- Goes on with another text. -/
def jump (f : List Char → Except Fault (List Char)) : Reader Unit := fun cs =>
  match f cs with
  | .error e => .error e
  | .ok rest => .ok ((), rest)

/-- Skips blanks and looks at the next character without taking it. -/
def peek : Reader (Option Char) := fun cs =>
  let rest := skipBlanks cs
  .ok (rest.head?, rest)

/-- Takes one character. -/
def advance : Reader Unit := fun cs => .ok ((), cs.tail)

/-- The content of a string from behind its opening quote. -/
def body : Reader String := fun cs =>
  match stringBody [] cs with
  | .error e => .error e
  | .ok (s, rest) => .ok (String.ofList s, rest)

/-! ### Scalars -/

/-- Refuses a value of the wrong type whose first character is `c`; a scalar must be spelt correctly
before its type is found wrong. -/
def wrongType (expected : String) (c : Char) : Reader α := do
  if c = '[' || c = '\x7b' then pure ()
  else if c = 'n' then advance; jump (word ['u', 'l', 'l'])
  else if c = 't' then advance; jump (word ['r', 'u', 'e'])
  else if c = 'f' then advance; jump (word ['a', 'l', 's', 'e'])
  else if c = '"' then advance; discard body
  else if c = '-' || isDigit c then discard number
  else fail .malformed
  mismatch (.wrongType expected)

/-- A string; `expected` names what should stand here. -/
def text (expected : String) : Reader String := do
  match ← peek with
  | none => fail .cutShort
  | some '"' => advance; body
  | some c => wrongType expected c

/-- A string where nothing but a string makes sense, such as a key: everything else is no JSON. -/
def key : Reader String := do
  match ← peek with
  | none => fail .cutShort
  | some '"' => advance; body
  | some _ => fail .malformed

/-- A number. -/
def numeral (expected : String) : Reader Number := do
  match ← peek with
  | none => fail .cutShort
  | some c => if c = '-' || isDigit c then number else wrongType expected c

/-- An unsigned number of 64 bits. -/
def unsigned : Reader Nat := do
  match ← numeral "usize" with
  | .natural n => pure n
  | .negative _ => mismatch (.wrongValue "usize")
  | .inexact => mismatch (.wrongType "usize")

/-- A signed number of 64 bits. -/
def signed : Reader Int64 := do
  match ← numeral "i64" with
  | .natural n => if n < signedLimit then pure (Int64.ofNat n) else mismatch (.wrongValue "i64")
  | .negative n => pure (Int64.ofInt (-(n : Int)))
  | .inexact => mismatch (.wrongType "i64")

/-- The word for nothing. -/
def unit : Reader Unit := do
  match ← peek with
  | none => fail .cutShort
  | some 'n' => advance; jump (word ['u', 'l', 'l'])
  | some c => wrongType "unit" c

/-! ### Arrays -/

/-- Whether another element follows; takes the comma in front of it, unless it is the first one. -/
def nextElement (first : Bool) : Reader Bool := do
  match ← peek with
  | none => fail .cutShort
  | some c =>
    if c = ']' then pure false
    else if first then pure true
    else if c = ',' then
      advance
      match ← peek with
      | none => fail .cutShort
      | some ']' => fail .malformed
      | some _ => pure true
    else fail .malformed

/-- The end of an array all of whose elements have been read. -/
def endOfArray : Reader Unit := do
  match ← peek with
  | none => fail .cutShort
  | some ']' => advance
  | some _ => fail .malformed

/-- The elements of an array, at most `n` of them; `read` holds those read so far, last one
first. -/
def elements (item : Reader α) : Nat → Bool → List α → Reader (List α)
  | 0, _, _ => fail .cutShort
  | n + 1, first, read => do
    if ← nextElement first then
      let a ← item
      elements item n false (a :: read)
    else
      endOfArray
      pure read.reverse

/-- An array. -/
def array (item : Reader α) : Reader (List α) := do
  match ← peek with
  | none => fail .cutShort
  | some '[' =>
    advance
    fun cs => elements item (cs.length + 1) true [] cs
  | some c => wrongType "a sequence" c

/-! ### Objects -/

/-- Whether another member follows; takes the comma in front of it, unless it is the first one, and
the opening quote of its key. -/
def nextMember (first : Bool) : Reader Bool := do
  match ← peek with
  | none => fail .cutShort
  | some c =>
    if c = '\x7d' then pure false
    else if first then
      if c = '"' then advance; pure true else fail .malformed
    else if c = ',' then
      advance
      match ← peek with
      | none => fail .cutShort
      | some '"' => advance; pure true
      | some _ => fail .malformed
    else fail .malformed

/-- The colon between a key and its value. -/
def colon : Reader Unit := do
  match ← peek with
  | none => fail .cutShort
  | some ':' => advance
  | some _ => fail .malformed

/-- The members of an object, at most `n` of them. Each key is handed with what has been read so far
to `member`, which reads on from behind the key. -/
def members (member : α → String → Reader α) : Nat → Bool → α → Reader α
  | 0, _, _ => fail .cutShort
  | n + 1, first, a => do
    if ← nextMember first then
      let key ← body
      let a ← member a key
      members member n false a
    else
      advance
      pure a

/-- An object, from behind its opening brace. -/
def objectBody (member : α → String → Reader α) (a : α) : Reader α :=
  fun cs => members member (cs.length + 1) true a cs

end Reader

/-! ### Records -/

/-- A field of a record: its key, whether it must be present, and how it is read into the record. -/
structure Field (α : Type) where
  key : String
  required : Bool
  read : α → Reader α

/-- **A record**: its name, its fields in order, and the record before any field is read. -/
structure Record (α : Type) where
  name : String
  fields : List (Field α)
  blank : α

namespace Record

variable {α : Type} (r : Record α)

/-- How the record is called where something else was found. -/
def expected : String := "struct " ++ r.name

/-- How the record is called where an array was too short for it. -/
def expectedLength : String :=
  r.expected ++ " with " ++ toString r.fields.length
    ++ (if r.fields.length = 1 then " element" else " elements")

/-- One member of the record given as an object; the second component holds the keys of the fields
that have been read. -/
def member (state : α × List String) (key : String) : Reader (α × List String) :=
  match r.fields.find? (·.key = key) with
  | none => do
    Reader.colon
    Reader.jump skipValue
    pure state
  | some f =>
    if state.2.contains key then Reader.mismatch (.duplicateField key)
    else do
      Reader.colon
      let a ← f.read state.1
      pure (a, key :: state.2)

/-- The first required field that has not been read. -/
def missing? (read : List String) : Option String :=
  (r.fields.find? fun f => f.required && !read.contains f.key).map (·.key)

/-- The members of the record given as an object. The closing brace is taken only when no field is
missing, but the text is not looked at any further in either case. -/
def fromObject : Reader α := do
  let (a, read) ← Reader.objectBody r.member (r.blank, [])
  match r.missing? read with
  | some key => Reader.mismatch (.missingField key)
  | none => pure a

/-- The given fields of the record given as an array, the first of them at place `i`. -/
def fromElements : List (Field α) → Nat → α → Reader α
  | [], _, a => do
    Reader.endOfArray
    pure a
  | f :: fs, i, a => do
    if ← Reader.nextElement (i = 0) then
      let a ← f.read a
      fromElements fs (i + 1) a
    else
      match (f :: fs).findIdx? (·.required) with
      | some j => Reader.mismatch (.wrongLength (i + j) r.expectedLength)
      | none =>
        Reader.endOfArray
        pure a

/-- **Reading a record.** -/
def read : Reader α := do
  match ← Reader.peek with
  | none => Reader.fail .cutShort
  | some '[' =>
    Reader.advance
    r.fromElements r.fields 0 r.blank
  | some '\x7b' =>
    Reader.advance
    r.fromObject
  | some c => Reader.wrongType r.expected c

end Record

/-- **Reading a text** that holds one value and nothing else but blanks. -/
def decodeChars {α : Type} (r : Reader α) (cs : List Char) : Except Fault α :=
  match r cs with
  | .error f => .error f
  | .ok (a, rest) => if skipBlanks rest = [] then .ok a else .error .malformed

/-- Reading a text that holds one value. -/
def decode {α : Type} (r : Reader α) (s : String) : Except Fault α :=
  decodeChars r s.toList

end BlockLedger.Json
