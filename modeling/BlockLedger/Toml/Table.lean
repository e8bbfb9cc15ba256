/-!
# TOML tables

What a settings file says is a table: keys with values, some of which are tables again. A table can
be spoken of in several ways, and which of them may be mixed is a rule of its own. A table is opened
by a header, implied by a longer header, made by a dotted key, or written between braces on one line
(`TableKind`). A dotted key adds only to tables made by dotted keys, a header opens a table once,
and nothing is added to what stands between braces (`insertAt`, `Section.addTo`).
-/

namespace BlockLedger.Toml

/-- How a table has come into being. -/
inductive TableKind where
  | opened
  | implied
  | dotted
  | braces
  deriving DecidableEq, Repr

/-- A value. Of numbers that are no integers, truth values and points in time only the kind is
kept. -/
inductive Value where
  | text (s : String)
  | integer (n : Int)
  | float
  | bool
  | time
  | array (items : List Value)
  | table (kind : TableKind) (members : List (String × Value))
  | tables (elements : List (List (String × Value)))
  deriving Inhabited

/-- Keys with their values. -/
abbrev Members := List (String × Value)

/-- Puts a value in the place of the one with the same key, or at the end. -/
def Members.put (key : String) (v : Value) : Members → Members
  | [] => [(key, v)]
  | m :: ms => if m.1 = key then (key, v) :: ms else m :: put key v ms

/-! ### Keys with values -/

/-- A key, dotted or not, with its value. -/
structure Pair where
  path : List String
  key : String
  value : Value

/-- Whether a dotted key may lead through a table, and, if it is the last one on the way, add to
it. -/
def TableKind.takes (kind : TableKind) (last : Bool) : Bool :=
  kind = .dotted || kind = .implied && !last

mutual

/-- Adds a value at the end of a dotted key; `none` if the key is taken or leads through something
else. -/
def insertAt (key : String) (v : Value) : List String → Members → Option Members
  | [], ms => if (ms.lookup key).isSome then none else some (ms ++ [(key, v)])
  | step :: path, ms =>
    match ms.lookup step with
    | none => do
      let inner ← insertAt key v path []
      return ms ++ [(step, .table .dotted inner)]
    | some child => do
      let child ← insertInto key v path child
      return Members.put step child ms

/-- Adds a value inside another one at the end of a dotted key. The last table of a list of tables is
the one meant. -/
def insertInto (key : String) (v : Value) : List String → Value → Option Value
  | path, .table kind ms =>
    if kind.takes path.isEmpty then do
      let ms ← insertAt key v path ms
      return .table kind ms
    else none
  | path, .tables elements =>
    match path, elements.getLast? with
    | [], _ => none
    | _ :: _, none => none
    | step :: path, some last => do
      let last ← insertAt key v (step :: path) last
      return .tables (elements.dropLast ++ [last])
  | _, _ => none

end

/-- Adds pairs one after another. -/
def Members.add (ms : Members) (pairs : List Pair) : Option Members :=
  pairs.foldlM (fun ms p => insertAt p.key p.value p.path ms) ms

/-! ### Headers -/

/-- What a header opens: a table, or one more table of a list. -/
structure Header where
  path : List String
  key : String
  listed : Bool

/-- Changes the table to which a header's path leads; tables that are missing on the way are
implied. -/
def inside (f : Members → Option Members) : List String → Members → Option Members
  | [], ms => f ms
  | step :: path, ms =>
    match ms.lookup step with
    | none => do
      let inner ← inside f path []
      return ms ++ [(step, .table .implied inner)]
    | some (.table .braces _) => none
    | some (.table kind inner) => do
      let inner ← inside f path inner
      return Members.put step (.table kind inner) ms
    | some (.tables elements) =>
      match elements.getLast? with
      | none => none
      | some last => do
        let last ← inside f path last
        return Members.put step (.tables (elements.dropLast ++ [last])) ms
    | some _ => none

/-- A header and the pairs behind it; the pairs at the top have none. -/
structure Section where
  header : Option Header
  pairs : List Pair

/-- Adds to the members of a table what a header opens in it. -/
def Header.place (h : Header) (pairs : List Pair) (ms : Members) : Option Members :=
  match h.listed, ms.lookup h.key with
  | false, none => do
    let inner ← Members.add [] pairs
    return ms ++ [(h.key, .table .opened inner)]
  | false, some (.table .implied inner) => do
    let inner ← Members.add inner pairs
    return Members.put h.key (.table .opened inner) ms
  | true, none => do
    let inner ← Members.add [] pairs
    return ms ++ [(h.key, .tables [inner])]
  | true, some (.tables elements) => do
    let inner ← Members.add [] pairs
    return Members.put h.key (.tables (elements ++ [inner])) ms
  | _, some _ => none

/-- Adds a section to a document. -/
def Section.addTo (s : Section) (document : Members) : Option Members :=
  match s.header with
  | none => Members.add document s.pairs
  | some h => inside (h.place s.pairs) h.path document

/-! ### Documents -/

/-- A line that says something. -/
inductive Line where
  | header (h : Header)
  | pair (p : Pair)

/-- Adds lines to a document; `current` is the section that is not complete yet, its last pair
first. -/
def addLines (document : Members) (current : Section) : List Line → Option Members
  | [] => { current with pairs := current.pairs.reverse }.addTo document
  | .pair p :: lines => addLines document { current with pairs := p :: current.pairs } lines
  | .header h :: lines => do
    let document ← { current with pairs := current.pairs.reverse }.addTo document
    addLines document ⟨some h, []⟩ lines

/-- **The table that some lines describe**, if they agree with each other. -/
def documentOf (lines : List Line) : Option Members := addLines [] ⟨none, []⟩ lines

end BlockLedger.Toml
