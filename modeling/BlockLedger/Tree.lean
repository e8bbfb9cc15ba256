import BlockLedger.Block
import BlockLedger.Tree.Subtree

/-!
# Hash trees

A tree commits to an ordered list of leaves. Its rows of subtrees are built from the leaves upwards:
neighbours are joined, and the last subtree of an odd row is wrapped alone, until one subtree is
left, the root. Without leaves there are no rows and there is no root.

Identifiers may repeat; an identifier stands for the first leaf that carries it.
-/

namespace BlockLedger

/-! ### Rows -/

/-- The row above a row. -/
def rowAbove (row : List Subtree) : List Subtree := pairUp Subtree.wrap Subtree.join row

theorem length_rowAbove (row : List Subtree) : (rowAbove row).length = (row.length + 1) / 2 :=
  length_pairUp _ _ _

/-- A row with all rows above it, up to one that has a single subtree or none. -/
def rowsFrom (row : List Subtree) : List (List Subtree) :=
  if row.length ≤ 1 then [row] else row :: rowsFrom (rowAbove row)
termination_by row.length
decreasing_by
  rw [length_rowAbove]
  omega

/-- The lowest row: the leaves at their positions. -/
def leafRow (leaves : List Leaf) : List Subtree :=
  leaves.zipIdx.map fun l => .leaf l.2 l.1

/-- The rows over a list of leaves. -/
def rowsOver (leaves : List Leaf) : List (List Subtree) :=
  if leaves.isEmpty then [] else rowsFrom (leafRow leaves)

@[simp] theorem length_leafRow (leaves : List Leaf) : (leafRow leaves).length = leaves.length := by
  simp [leafRow]

/-! ### Trees -/

/-- **A hash tree** over an ordered list of leaves. -/
structure Tree where
  leaves : List Leaf
  rows : List (List Subtree)
  rows_eq : rows = rowsOver leaves

namespace Tree

/-- The tree over a list of leaves. -/
def ofLeaves (leaves : List Leaf) : Tree := ⟨leaves, rowsOver leaves, rfl⟩

/-- **The tree over identifiers and payloads**, in this order. -/
def build (items : List (String × Bytes)) : Tree :=
  ofLeaves (items.map fun i => .of i.1 i.2)

/-- The tree over blocks, by their identifiers and payloads. -/
def ofBlocks (blocks : List Block) : Tree :=
  build (blocks.map fun b => (b.id, b.payload))

instance : Inhabited Tree := ⟨ofLeaves []⟩

theorem ext {s t : Tree} (h : s.leaves = t.leaves) : s = t := by
  cases s with
  | mk ls rs hs =>
    cases t with
    | mk ls' rs' ht =>
      cases h
      cases hs
      cases ht
      rfl

instance : DecidableEq Tree := fun s t =>
  if h : s.leaves = t.leaves then isTrue (ext h) else isFalse fun e => h (e ▸ rfl)

variable (t : Tree)

/-- Whether there are no leaves. -/
def isEmpty : Bool := t.leaves.isEmpty

/-- The number of leaves. -/
def leafCount : Nat := t.leaves.length

/-- The number of rows. -/
def height : Nat := t.rows.length

/-- The subtrees of a row, none above the root. -/
def row (level : Nat) : List Subtree := t.rows.getD level []

/-- The number of subtrees of a row. -/
def width (level : Nat) : Nat := (t.row level).length

/-- The subtree at a place of a row. -/
def at? (level position : Nat) : Option Subtree := (t.row level)[position]?

/-- The hash at a place of a row. -/
def hashAt? (level position : Nat) : Option Digest := (t.at? level position).map Subtree.hash

/-- The whole tree, if it has a leaf. -/
def root? : Option Subtree := t.rows.getLast?.bind List.head?

/-- The hash of the whole tree, if it has a leaf. -/
def rootHash? : Option Digest := t.root?.map Subtree.hash

/-- The digits of the root's hash, none if there is no root. -/
def rootHex : String := (t.rootHash?.map Digest.hex).getD ""

/-- The leaf at a position. -/
def leaf? (position : Nat) : Option Leaf := t.leaves[position]?

/-- The position of the first leaf with an identifier. -/
def positionOf? (id : String) : Option Nat := t.leaves.findIdx? (·.id = id)

@[simp] theorem leaves_ofLeaves (ls : List Leaf) : (ofLeaves ls).leaves = ls := rfl

theorem leaves_build (items : List (String × Bytes)) :
    (build items).leaves = items.map fun i => .of i.1 i.2 := rfl

@[simp] theorem leafCount_build (items : List (String × Bytes)) :
    (build items).leafCount = items.length := by
  simp [build, leafCount]

/-- A tree is the tree over its leaves. -/
theorem ofLeaves_leaves : ofLeaves t.leaves = t := ext rfl

end Tree

end BlockLedger
