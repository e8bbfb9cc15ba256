import BlockLedger.Tree

/-!
# Numbered nodes

The nodes of a tree are numbered row by row from the leaves upwards, each row from left to right, so
that the leaves have their positions as numbers and the root comes last. A numbered node names its
children by their numbers; a lone child has no sibling to the right.
-/

namespace BlockLedger

/-- **A node as it is shown**: its hash, with a leaf's position or the numbers of the children. -/
inductive Node where
  | leaf (hash : Digest) (position : Nat)
  | inner (hash : Digest) (left : Nat) (right : Option Nat)
  deriving DecidableEq

/-- The node for a subtree at a place of its row, where the row of its children starts at number
`below`. -/
def Subtree.node (below position : Nat) : Subtree → Node
  | .leaf p l => .leaf l.hash p
  | .lone _ h => .inner h (below + 2 * position) none
  | .pair _ _ h => .inner h (below + 2 * position) (some (below + 2 * position + 1))

/-- The nodes of the given rows in order. The first of them starts at number `start`, and the row
below it at number `below`. -/
def nodesFrom (below start : Nat) : List (List Subtree) → List Node
  | [] => []
  | row :: rows =>
    row.zipIdx.map (fun s => s.1.node below s.2) ++ nodesFrom start (start + row.length) rows

namespace Tree

variable (t : Tree)

/-- All nodes in the order of their numbers. -/
def nodes : List Node := nodesFrom 0 0 t.rows

/-- The node with a number. -/
def node? (number : Nat) : Option Node := t.nodes[number]?

/-- The subtree under the node with a number. -/
def subtree? (number : Nat) : Option Subtree := t.rows.flatten[number]?

/-- The number of the first node of a row. -/
def firstNumber (level : Nat) : Nat := (t.rows.take level).flatten.length

/-- The number of the root, if there is one. -/
def rootNumber? : Option Nat :=
  if t.isEmpty then none else some (t.firstNumber (t.height - 1))

/-- The positions of the leaves under the node with a number, in order; none if there is no such
node. -/
def leavesUnder (number : Nat) : List Nat := ((t.subtree? number).map Subtree.positions).getD []

end Tree

end BlockLedger
