import BlockLedger.Block.Json
import BlockLedger.Tree

/-!
# Differences between trees

Two trees are compared from their roots downwards, side by side. Where the hashes are equal nothing
differs. Where both have children, the left ones are compared with each other and so are the right
ones; a right child that only one side has is reported with all its leaves, while a lone child needs
no further look, because it stands in for its own copy. Where the shapes differ, all leaves of both
sides are reported.

Leaves are not aligned: one that moved is reported on both sides.
-/

namespace BlockLedger

/-- Which of two trees a leaf belongs to. -/
inductive Side where
  | local
  | remote
  deriving DecidableEq, Repr

/-- A leaf of one tree without its like at the same place of the other. -/
structure DifferingLeaf where
  side : Side
  position : Nat
  id : String
  hash : Digest
  deriving DecidableEq

/-- **The difference between two trees**: the leaves of each side that differ, in order. -/
structure Difference where
  entries : List DifferingLeaf
  deriving DecidableEq

/-! ### Comparing -/

/-- Leaves with their positions, on either side. -/
abbrev TwoSided := List (Nat × Leaf) × List (Nat × Leaf)

/-- The leaves on either side behind those of another part. -/
def TwoSided.append (a b : TwoSided) : TwoSided := (a.1 ++ b.1, a.2 ++ b.2)

/-- The leaves of two subtrees that differ. -/
def Subtree.difference : Subtree → Subtree → TwoSided
  | .lone a h, .lone b k => if h = k then ([], []) else a.difference b
  | .lone a h, .pair b₁ b₂ k =>
    if h = k then ([], []) else (a.difference b₁).append ([], b₂.leaves)
  | .pair a₁ a₂ h, .lone b k =>
    if h = k then ([], []) else (a₁.difference b).append (a₂.leaves, [])
  | .pair a₁ a₂ h, .pair b₁ b₂ k =>
    if h = k then ([], []) else (a₁.difference b₁).append (a₂.difference b₂)
  | a, b => if a.hash = b.hash then ([], []) else (a.leaves, b.leaves)

/-- The leaves of two trees that differ. -/
def Tree.differingLeaves (t u : Tree) : TwoSided :=
  match t.root?, u.root? with
  | none, none => ([], [])
  | some a, none => (a.leaves, [])
  | none, some b => ([], b.leaves)
  | some a, some b => a.difference b

/-- A leaf of one side as an entry. -/
def DifferingLeaf.of (side : Side) (l : Nat × Leaf) : DifferingLeaf := ⟨side, l.1, l.2.id, l.2.hash⟩

/-- **The difference between a local tree and a remote one.** -/
def Tree.difference (t u : Tree) : Difference :=
  let d := t.differingLeaves u
  ⟨d.1.map (.of .local) ++ d.2.map (.of .remote)⟩

namespace Difference

/-- The entries of one side. -/
def onSide (d : Difference) (side : Side) : List DifferingLeaf :=
  d.entries.filter (·.side = side)

/-! ### JSON -/

/-- The word for a side. -/
def sideText : Side → String
  | .local => "local"
  | .remote => "remote"

/-- An entry as an object. -/
def entryToJson (e : DifferingLeaf) : Json.Value :=
  .object [
    ("side", .text (sideText e.side)),
    ("position", .nat e.position),
    ("id", .text e.id),
    ("hash", e.hash.toJson)]

/-- The difference as an object. -/
def toJson (d : Difference) : Json.Value :=
  .object [("entries", .array (d.entries.map entryToJson))]

/-- The difference on one line. -/
def encode (d : Difference) : String := d.toJson.compact

end Difference

end BlockLedger
