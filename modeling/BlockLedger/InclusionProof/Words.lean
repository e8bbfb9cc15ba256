import BlockLedger.InclusionProof.Replay

/-!
# Replaying a proof on words

A proof may come from anyone, with any widths and positions that fit 64 bits and with any number of
rows. Here it is checked with numbers of 64 bits only. Arithmetic whose result does not fit, and a
place of a list that does not exist, stop the computation (`Stop.overflow`, `Stop.outOfRange`); to
refuse a proof is another way to stop.

The steps are those of `InclusionProof.verify`, with the rows fetched by their numbers where they
are not at hand. `Proof.plain` reads a proof of words as one of natural numbers.
-/

namespace BlockLedger

namespace Words

/-! ### Words -/

/-- Why a computation on words gives no answer. -/
inductive Stop where
  | overflow
  | outOfRange
  | refused (fault : ReplayFault)
  deriving DecidableEq

/-- Refuses a proof for a defect. -/
def refuse {α : Type} (defect : Defect) : Except Stop α := .error (.refused (.malformed defect))

/-- A computation that stops for no other reason than to refuse a proof. -/
def refusing {α : Type} (x : Except ReplayFault α) : Except Stop α := x.mapError .refused

/-- The word for a number, if it fits. -/
def ofNat? (n : Nat) : Except Stop UInt64 :=
  if n < unsignedLimit then .ok (.ofNat n) else .error .overflow

def add (a b : UInt64) : Except Stop UInt64 := ofNat? (a.toNat + b.toNat)

def mul (a b : UInt64) : Except Stop UInt64 := ofNat? (a.toNat * b.toNat)

def sub (a b : UInt64) : Except Stop UInt64 :=
  if b ≤ a then .ok (a - b) else .error .overflow

/-- Half of a number, rounded up: one is added to the quotient if there is a remainder. -/
def halfUp (a : UInt64) : Except Stop UInt64 := if a % 2 = 0 then .ok (a / 2) else add (a / 2) 1

/-- The length of a list. -/
def count {α : Type} (as : List α) : Except Stop UInt64 := ofNat? as.length

/-- The element at a place of a list. -/
def fetch {α : Type} (as : List α) (place : UInt64) : Except Stop α :=
  match as[place.toNat]? with
  | some a => .ok a
  | none => .error .outOfRange

/-! ### Proofs of words -/

/-- One place of a row. -/
structure Entry where
  position : UInt64
  slot : Slot
  deriving DecidableEq

/-- The part of a proof that belongs to one row. -/
structure Level where
  width : UInt64
  entries : List Entry
  deriving DecidableEq

/-- **A proof with widths and positions of 64 bits.** -/
structure Proof where
  levels : List Level
  deriving DecidableEq

/-- The values of a row, with their positions. -/
abbrev RowValues := List (UInt64 × Digest)

def Entry.plain (e : Entry) : BlockLedger.Entry := ⟨e.position.toNat, e.slot⟩

def Level.plain (l : Level) : BlockLedger.Level := ⟨l.width.toNat, l.entries.map Entry.plain⟩

/-- **The same proof** with its words as natural numbers. -/
def Proof.plain (p : Proof) : InclusionProof := ⟨p.levels.map Level.plain⟩

/-- A value with its position as a natural number. -/
def plainValue (v : UInt64 × Digest) : Nat × Digest := (v.1.toNat, v.2)

/-! ### Shape -/

/-- Checks the entries of a row. -/
def checkEntries (level width : UInt64) (previous : Option UInt64) : List Entry → Except Stop Unit
  | [] => .ok ()
  | e :: es =>
    if width ≤ e.position then
      refuse (.positionOutOfRange level.toNat e.position.toNat width.toNat)
    else if previous.any (e.position ≤ ·) then
      refuse (.duplicatePosition level.toNat e.position.toNat)
    else match e.slot with
      | .derived =>
        if level = 0 then refuse (.derivedAtLeafLevel e.position.toNat)
        else checkEntries level width (some e.position) es
      | .leaf _ =>
        if level = 0 then checkEntries level width (some e.position) es
        else refuse (.leafAboveLeafLevel level.toNat e.position.toNat)
      | .supplied _ => checkEntries level width (some e.position) es

/-- Checks the width of a row against that of the row below it, if there is one. -/
def checkWidth (levels : List Level) (level : UInt64) (current : Level) : Except Stop Unit :=
  if 0 < level then do
    let before ← sub level 1
    let below ← fetch levels before
    if below.width = 1 then refuse (.extraLevel level.toNat)
    else
      let expected ← halfUp below.width
      if current.width = expected then .ok ()
      else refuse (.levelWidth level.toNat expected.toNat current.width.toNat)
  else .ok ()

/-- The last row, fetched by its number. -/
def lastRow (levels : List Level) : Except Stop Level := do
  let rows ← count levels
  let top ← sub rows 1
  fetch levels top

/-- Checks that the last row is that of a single root. -/
def checkTop (levels : List Level) : Except Stop Unit := do
  let last ← lastRow levels
  if last.width = 1 then .ok () else refuse (.rootWidth last.width.toNat)

/-- Checks the rows from number `level` on, and the last row after them. The counter goes on when a
row is taken. -/
def checkRows (levels : List Level) (level : UInt64) : List Level → Except Stop Unit
  | [] => checkTop levels
  | current :: rest => do
    let next ← add level 1
    checkWidth levels level current
    checkEntries level current.width none current.entries
    checkRows levels next rest

/-- **Checks the shape of a proof.** -/
def checkShape (levels : List Level) : Except Stop Unit :=
  match levels with
  | [] => refuse .noLevels
  | leafRow :: _ =>
    if leafRow.width = 0 then refuse (.emptyLeafLevel leafRow.width.toNat)
    else checkRows levels 0 levels

/-! ### The leaf row -/

/-- The values of the leaf row, and the leaves that were not used. -/
def leafValues (held : List HeldLeaf) : List Entry → Except Stop (RowValues × List HeldLeaf)
  | [] => .ok ([], held)
  | e :: es =>
    match e.slot with
    | .derived => refuse (.derivedAtLeafLevel e.position.toNat)
    | .supplied h => do
      let (values, left) ← leafValues held es
      return ((e.position, h) :: values, left)
    | .leaf id =>
      match takeLeaf id held with
      | none => refuse (.unsuppliedLeaf id)
      | some (payload, rest) => do
        let (values, left) ← leafValues rest es
        return ((e.position, .ofPayload payload) :: values, left)

/-- The values of the leaf row, made of leaves that are all used. -/
def rowOfLeaves (held : List HeldLeaf) (level : Level) : Except Stop RowValues := do
  let (values, left) ← leafValues held level.entries
  match held.find? fun l => left.any (·.1 = l.1) with
  | some l => refuse (.missingLeaf l.1)
  | none => return values

/-! ### Rows above -/

/-- Whether the value at a position is to be derived. -/
def Level.derives (l : Level) (position : UInt64) : Bool :=
  l.entries.any fun e => e.position = position && e.slot = .derived

/-- The digest of the two values below a position, of which the left one counts twice at the end of
an odd row. The positions of both are computed before the values are looked up. -/
def derive (level width : UInt64) (values : RowValues) (position : UInt64) :
    Except Stop Digest := do
  let left ← mul position 2
  let right ← add left 1
  match values.lookup left with
  | none => refuse (.missingChild level.toNat position.toNat)
  | some l =>
    if right < width then
      match values.lookup right with
      | none => refuse (.missingChild level.toNat position.toNat)
      | some r => .ok (.ofPair l r)
    else .ok (.ofPair l l)

/-- The value of one place above a row. -/
def valueAbove (level width : UInt64) (values : RowValues) (e : Entry) :
    Except Stop (UInt64 × Digest) :=
  match e.slot with
  | .supplied h => .ok (e.position, h)
  | .leaf _ => refuse (.leafAboveLeafLevel level.toNat e.position.toNat)
  | .derived => do
    let h ← derive level width values e.position
    return (e.position, h)

/-- The values of the row `level`, made of those of the row below. -/
def valuesAbove (level width : UInt64) (values : RowValues) (above : Level) :
    Except Stop RowValues :=
  match values.find? fun v => !above.derives (v.1 / 2) with
  | some v => do
    let before ← sub level 1
    refuse (.unusedPosition before.toNat v.1.toNat)
  | none => above.entries.mapM (valueAbove level width values)

/-- The value of the root, which is that of the only place of the last row. -/
def topValue (levels : List Level) (values : RowValues) : Except Stop Digest := do
  let last ← lastRow levels
  match last.entries, values.lookup 0 with
  | [e], some h => if e.slot.supplied?.isSome then refuse .rootNotDerived else .ok h
  | _, _ => refuse .rootNotDerived

/-- The value of the root, from the values of a row and the rows from this one on. The counter goes
on when a row and the one above it are taken. -/
def climb (levels : List Level) (index : UInt64) (values : RowValues) :
    List Level → Except Stop Digest
  | below :: above :: rest => do
    let next ← add index 1
    let level ← add index 1
    let valuesOfAbove ← valuesAbove level below.width values above
    climb levels next valuesOfAbove (above :: rest)
  | _ => topValue levels values

/-! ### Proofs -/

namespace Proof

/-- The root of the tree that the given leaves belong to, if the proof is right. -/
def rootFrom (p : Proof) (held : List HeldLeaf) : Except Stop Digest := do
  checkShape p.levels
  let leafRow ← fetch p.levels 0
  let values ← rowOfLeaves held leafRow
  climb p.levels 0 values p.levels

/-- **Checking a proof on words**: whether the leaves belong to the tree with the given root. -/
def verify (root : Digest) (held : List HeldLeaf) (p : Proof) : Except Stop Bool :=
  if held.isEmpty then .error (.refused .noLeaves)
  else (p.rootFrom held).map (· = root)

end Proof

end Words

end BlockLedger
