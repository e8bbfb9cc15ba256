import BlockLedger.InclusionProof.Fault

/-!
# Replaying a proof

A proof is replayed with the payloads of the leaves it names. First its shape is checked: the widths
of the rows, the order and range of the positions, and which kinds of value may stand in which row
(`checkLevels`). Then each place of the leaf row gets a value, leaves with the same identifier being
used up in the order in which they are given (`leafValues`), and row by row the values above are made
of those below (`valuesAbove`). Every value below must be used, and every value that is to be derived
must find its children. The value of the last row's one place is the root the proof stands for.

Of several defects the first one met in this order is reported.
-/

namespace BlockLedger

/-- A leaf at hand: an identifier and a payload. -/
abbrev HeldLeaf := String × Bytes

/-- The values of a row, with their positions. -/
abbrev RowValues := List (Nat × Digest)

/-! ### Shape -/

/-- Checks the entries of a row against the width and the kind of the row; `previous` is the
position before the first of them. -/
def checkEntries (level width : Nat) (previous : Option Nat) : List Entry → Except Defect Unit
  | [] => .ok ()
  | e :: es =>
    if width ≤ e.position then .error (.positionOutOfRange level e.position width)
    else if previous.any (e.position ≤ ·) then .error (.duplicatePosition level e.position)
    else match e.slot with
      | .derived =>
        if level = 0 then .error (.derivedAtLeafLevel e.position)
        else checkEntries level width (some e.position) es
      | .leaf _ =>
        if level = 0 then checkEntries level width (some e.position) es
        else .error (.leafAboveLeafLevel level e.position)
      | .supplied _ => checkEntries level width (some e.position) es

/-- Checks the rows above one of the given width, up to the root. -/
def checkLevels (level below : Nat) : List Level → Except Defect Unit
  | [] => if below = 1 then .ok () else .error (.rootWidth below)
  | l :: ls =>
    if below = 1 then .error (.extraLevel level)
    else if l.width ≠ (below + 1) / 2 then
      .error (.levelWidth level ((below + 1) / 2) l.width)
    else do
      checkEntries level l.width none l.entries
      checkLevels (level + 1) l.width ls

/-- Checks the shape of a proof. -/
def checkShape : List Level → Except Defect Unit
  | [] => .error .noLevels
  | l :: ls =>
    if l.width = 0 then .error (.emptyLeafLevel l.width)
    else do
      checkEntries 0 l.width none l.entries
      checkLevels 1 l.width ls

/-! ### The leaf row -/

/-- Takes the first leaf with an identifier; gives back its payload and the other leaves. -/
def takeLeaf (id : String) : List HeldLeaf → Option (Bytes × List HeldLeaf)
  | [] => none
  | l :: ls =>
    if l.1 = id then some (l.2, ls)
    else (takeLeaf id ls).map fun r => (r.1, l :: r.2)

/-- The values of the leaf row, and the leaves that were not used. -/
def leafValues (held : List HeldLeaf) : List Entry → Except Defect (RowValues × List HeldLeaf)
  | [] => .ok ([], held)
  | e :: es =>
    match e.slot with
    | .derived => .error (.derivedAtLeafLevel e.position)
    | .supplied h => do
      let (values, left) ← leafValues held es
      return ((e.position, h) :: values, left)
    | .leaf id =>
      match takeLeaf id held with
      | none => .error (.unsuppliedLeaf id)
      | some (payload, rest) => do
        let (values, left) ← leafValues rest es
        return ((e.position, .ofPayload payload) :: values, left)

/-- The values of the leaf row, made of leaves that are all used. -/
def rowOfLeaves (held : List HeldLeaf) (level : Level) : Except Defect RowValues := do
  let (values, left) ← leafValues held level.entries
  match held.find? fun l => left.any (·.1 = l.1) with
  | some l => .error (.missingLeaf l.1)
  | none => return values

/-! ### Rows above -/

/-- Whether the value at a position is to be derived. -/
def Level.derives (l : Level) (position : Nat) : Bool :=
  l.entries.any fun e => e.position = position && e.slot = .derived

/-- The two values below a position; at the end of an odd row the left one counts twice. -/
def valuesBelow (width : Nat) (values : RowValues) (position : Nat) : Option (Digest × Digest) := do
  let left ← values.lookup (2 * position)
  let right ← if 2 * position + 1 < width then values.lookup (2 * position + 1) else some left
  return (left, right)

/-- The digest of the two values below a position. -/
def derive (width : Nat) (values : RowValues) (position : Nat) : Option Digest :=
  (valuesBelow width values position).map fun v => .ofPair v.1 v.2

/-- The value of one place above a row of the given width with the given values. -/
def valueAbove (level width : Nat) (values : RowValues) (e : Entry) : Except Defect (Nat × Digest) :=
  match e.slot with
  | .supplied h => .ok (e.position, h)
  | .leaf _ => .error (.leafAboveLeafLevel level e.position)
  | .derived =>
    match derive width values e.position with
    | some h => .ok (e.position, h)
    | none => .error (.missingChild level e.position)

/-- The values of the row `level`, made of those of the row below. -/
def valuesAbove (level width : Nat) (values : RowValues) (above : Level) :
    Except Defect RowValues :=
  match values.find? fun v => !above.derives (v.1 / 2) with
  | some v => .error (.unusedPosition (level - 1) v.1)
  | none => above.entries.mapM (valueAbove level width values)

/-- The value of the root, from the values of a row and the rows above it. -/
def climb (level : Nat) (below : Level) (values : RowValues) : List Level → Except Defect Digest
  | [] =>
    match below.entries, values.lookup 0 with
    | [e], some h => if e.slot.supplied?.isSome then .error .rootNotDerived else .ok h
    | _, _ => .error .rootNotDerived
  | above :: rest => do
    let next ← valuesAbove level below.width values above
    climb (level + 1) above next rest

/-! ### Proofs -/

namespace InclusionProof

/-- The root of the tree that the given leaves belong to, if the proof is right. -/
def rootFrom (p : InclusionProof) (held : List HeldLeaf) : Except Defect Digest := do
  checkShape p.levels
  match p.levels with
  | [] => .error .noLevels
  | l :: ls =>
    let values ← rowOfLeaves held l
    climb 1 l values ls

/-- **Replaying a proof** with the leaves at hand gives a root. -/
def replay (p : InclusionProof) (held : List HeldLeaf) : Except ReplayFault Digest :=
  if held.isEmpty then .error .noLeaves
  else match p.rootFrom held with
    | .error d => .error (.malformed d)
    | .ok h => .ok h

/-- **Checking a proof**: whether the leaves belong to the tree with the given root. -/
def verify (root : Digest) (held : List HeldLeaf) (p : InclusionProof) : Except ReplayFault Bool :=
  (p.replay held).map (· = root)

end InclusionProof

end BlockLedger
