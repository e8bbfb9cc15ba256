import BlockLedger.Difference
import BlockLedger.Tree.Arena
import Mathlib.Data.List.Destutter

/-!
# Comparing trees in rounds

Trees that are kept in arenas are compared with a stack of pairs of numbers, the first number of a
pair for the local tree and the second one for the remote tree. A round takes the pair on top of the
stack (`Comparison.round`). If its nodes have different hashes, the pairs of their children take its
place, the right one on top; a right child that only one of them has is reported with all its
leaves, and so are both nodes if one of them is a leaf.

What has been found when the stack is empty is put in order, and of equal entries that stand next to
each other only the first is kept (`StoredTree.difference`).

A round replaces a pair by pairs with smaller numbers, since the children of a node have smaller
numbers than the node itself. The rounds end because of it: the numbers for the local tree weigh less
after each of them (`StoredTree.weight_step_lt`).
-/

namespace BlockLedger

/-- The place of a side in the order of entries. -/
def Side.rank : Side → Nat
  | .local => 0
  | .remote => 1

/-- **The order of entries**: by side, then by position, then by identifier and hash. -/
def DifferingLeaf.order : DifferingLeaf → DifferingLeaf → Ordering :=
  compareLex (compareOn (·.side.rank)) <| compareLex (compareOn (·.position)) <|
    compareLex (compareOn (·.id)) (compareOn (·.hash.bytes))

/-- A tree in an arena, with its leaves at hand. -/
structure StoredTree extends ArenaTree where
  leaves : List Leaf

/-- How far a comparison has come: the pairs of numbers that are still to be looked at, and the
entries that have been found. -/
structure Comparison where
  pending : List (Nat × Nat)
  found : List DifferingLeaf

namespace StoredTree

/-- The tree over a list of leaves, built in an arena; none if a lookup fails on the way. -/
def build (leaves : List Leaf) : Option StoredTree :=
  (ArenaTree.build leaves).map fun a => ⟨a, leaves⟩

/-- The leaves under the node with a number, as entries. -/
def entriesUnder (t : StoredTree) (side : Side) (number : Nat) : List DifferingLeaf :=
  (t.leavesUnder number).filterMap fun p => t.leaves[p]?.map fun l => .of side (p, l)

variable (t u : StoredTree)

/-- What comes of two nodes with different hashes: the pairs that take their place, and the entries
that are found. -/
def part (m n : Nat) : Node → Node → List (Nat × Nat) × List DifferingLeaf
  | .inner _ left (some right), .inner _ left' (some right') =>
    ([(right, right'), (left, left')], [])
  | .inner _ left (some right), .inner _ left' none =>
    ([(left, left')], t.entriesUnder .local right)
  | .inner _ left none, .inner _ left' (some right') =>
    ([(left, left')], u.entriesUnder .remote right')
  -- two lone children: their pair covers the copies, too
  | .inner _ left none, .inner _ left' none => ([(left, left')], [])
  | _, _ => ([], t.entriesUnder .local m ++ u.entriesUnder .remote n)

/-- **What comes of a pair of numbers.** Nothing comes of it if the hashes are equal, or if there is
no such node. -/
def step (m n : Nat) : List (Nat × Nat) × List DifferingLeaf :=
  match t.nodes[m]?, u.nodes[n]? with
  | some x, some y => if x.hash = y.hash then ([], []) else t.part u m n x y
  | _, _ => ([], [])

/-- The pairs that take the place of a pair have children of its first node. -/
theorem weight_part_le (m n : Nat) (x y : Node) :
    weight ((t.part u m n x y).1.map Prod.fst) ≤ weight x.children := by
  unfold part
  split
  · next left right _ _ _ =>
    change 3 ^ right + (3 ^ left + 0) ≤ 3 ^ left + (3 ^ right + 0)
    omega
  · -- the right child is not among the pairs
    exact Nat.add_le_add_left (Nat.zero_le _) _
  · exact Nat.le_refl _
  · exact Nat.le_refl _
  · exact Nat.zero_le _

theorem weight_step_lt (m n : Nat) : weight ((t.step u m n).1.map Prod.fst) < 3 ^ m := by
  have hpos : 0 < 3 ^ m := Nat.pow_pos (by decide)
  rw [step]
  split
  · next x y hx _ =>
    split
    · exact hpos
    · exact Nat.lt_of_le_of_lt (t.weight_part_le u m n x y) (weight_children_lt (t.ordered m x hx))
  · exact hpos

end StoredTree

namespace Comparison

/-- **One round**: the pair on top of the stack is looked at. None if the stack is empty. -/
def round (t u : StoredTree) (c : Comparison) : Option Comparison :=
  match c.pending with
  | [] => none
  | (m, n) :: rest => some ⟨(t.step u m n).1 ++ rest, c.found ++ (t.step u m n).2⟩

theorem weight_round_lt {t u : StoredTree} {c c' : Comparison} (h : c.round t u = some c') :
    weight (c'.pending.map Prod.fst) < weight (c.pending.map Prod.fst) := by
  obtain ⟨pending, found⟩ := c
  cases pending with
  | nil => cases h
  | cons pair rest =>
    cases h
    change weight (((t.step u pair.1 pair.2).1 ++ rest).map Prod.fst) < _
    rw [List.map_append, weight_append, List.map_cons, weight_cons]
    exact Nat.add_lt_add_right (t.weight_step_lt u pair.1 pair.2) _

/-- **All rounds**, until the stack is empty; the entries that have been found then. -/
def run (t u : StoredTree) (c : Comparison) : List DifferingLeaf :=
  match _ : c.round t u with
  | none => c.found
  | some next => next.run t u
termination_by weight (c.pending.map Prod.fst)
decreasing_by exact weight_round_lt ‹_›

end Comparison

namespace StoredTree

variable (t u : StoredTree)

/-- The comparison at its start: both roots are to be looked at, or the leaves of the only one are
found. -/
def comparison : Comparison :=
  match t.root?, u.root? with
  | none, none => ⟨[], []⟩
  | some root, none => ⟨[], t.entriesUnder .local root⟩
  | none, some root => ⟨[], u.entriesUnder .remote root⟩
  | some root, some root' => ⟨[(root, root')], []⟩

/-- Entries in order. -/
def sorted (found : List DifferingLeaf) : List DifferingLeaf :=
  found.mergeSort fun e f => (e.order f).isLE

/-- **The difference between two trees in arenas.** -/
def difference : Difference := ⟨(sorted ((t.comparison u).run t u)).destutter (· ≠ ·)⟩

end StoredTree

end BlockLedger
