import BlockLedger.Tree

/-!
# Inclusion proofs

A proof that some leaves belong to a tree lists, row by row from the leaves upwards, how wide the row
is and where the values that a checker needs come from: from a payload the checker holds, from the
two values below, or from the proof itself. Positions are explicit, so the proof can be replayed for
any set of leaves and any width, the lone subtree at the end of an odd row included.

The proof for a request marks the requested leaves and everything above them; beside a marked node
that has an unmarked sibling the hash of that sibling is supplied.
-/

namespace BlockLedger

/-- Where the value at one place comes from. -/
inductive Slot where
  | leaf (id : String)
  | derived
  | supplied (hash : Digest)
  deriving DecidableEq

/-- One place of a row that takes part in a proof. -/
structure Entry where
  position : Nat
  slot : Slot
  deriving DecidableEq

/-- The part of a proof that belongs to one row. -/
structure Level where
  width : Nat
  entries : List Entry
  deriving DecidableEq

/-- **A proof** for leaves of a tree, the leaf row first. -/
structure InclusionProof where
  levels : List Level
  deriving DecidableEq

/-! ### Parts -/

/-- The identifier of a leaf to be supplied by the checker. -/
def Slot.leafId? : Slot → Option String
  | .leaf id => some id
  | _ => none

/-- The hash carried by the proof. -/
def Slot.supplied? : Slot → Option Digest
  | .supplied h => some h
  | _ => none

/-- The hashes a row carries, with their positions. -/
def Level.supplied (l : Level) : List (Nat × Digest) :=
  l.entries.filterMap fun e => e.slot.supplied?.map (e.position, ·)

/-- The identifiers of the leaves that a row names. -/
def Level.leafIds (l : Level) : List String := l.entries.filterMap (·.slot.leafId?)

namespace InclusionProof

/-- The number of leaves of the tree the proof speaks of. -/
def leafCount (p : InclusionProof) : Nat := (p.levels.head?.map Level.width).getD 0

/-- The identifiers of the leaves the checker has to hold, in the order of the leaves. -/
def leafIds (p : InclusionProof) : List String := (p.levels.head?.map Level.leafIds).getD []

/-- The number of hashes the proof carries. -/
def suppliedCount (p : InclusionProof) : Nat :=
  (p.levels.flatMap Level.supplied).length

end InclusionProof

/-! ### The proof for a request -/

/-- Why there is no proof for a request. -/
inductive RequestFault where
  | emptyTree
  | emptyRequest
  | notFound (id : String)
  deriving DecidableEq, Repr

/-- The other child of the same parent. -/
def sibling (position : Nat) : Nat := position ^^^ 1

/-- How a marked subtree stands in a proof. -/
def Subtree.slot : Subtree → Slot
  | .leaf _ l => .leaf l.id
  | _ => .derived

/-- The entry for a subtree, if it is marked or its sibling is. -/
def Subtree.entryAt (marks : List Bool) (t : Subtree) (position : Nat) : Option Entry :=
  if marks.getD position false then some ⟨position, t.slot⟩
  else if marks.getD (sibling position) false then some ⟨position, .supplied t.hash⟩
  else none

/-- The part of a proof for one row with the given marks. -/
def levelFor (marks : List Bool) (row : List Subtree) : Level :=
  ⟨row.length, row.zipIdx.filterMap fun s => s.1.entryAt marks s.2⟩

/-- The marks of the row above: a subtree is marked if one of its children is. -/
def marksAbove (marks : List Bool) : List Bool := pairUp id (· || ·) marks

/-- The parts of a proof for some rows, the lowest of which has the given marks. -/
def levelsFor (marks : List Bool) : List (List Subtree) → List Level
  | [] => []
  | row :: rows => levelFor marks row :: levelsFor (marksAbove marks) rows

namespace Tree

variable (t : Tree)

/-- Which leaves stand at the positions asked for. -/
def marks (positions : List Nat) : List Bool :=
  (List.range t.leafCount).map fun p => positions.contains p

/-- The proof for the leaves at the given positions. -/
def proofAt (positions : List Nat) : InclusionProof := ⟨levelsFor (t.marks positions) t.rows⟩

/-- **The proof for the leaves with the given identifiers**, in any order and with repetitions. -/
def prove (ids : List String) : Except RequestFault InclusionProof :=
  if t.isEmpty then .error .emptyTree
  else match ids.find? fun id => (t.positionOf? id).isNone with
    | some id => .error (.notFound id)
    | none =>
      if ids.isEmpty then .error .emptyRequest
      else .ok (t.proofAt (ids.filterMap t.positionOf?))

end Tree

end BlockLedger
