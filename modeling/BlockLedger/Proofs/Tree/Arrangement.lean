import BlockLedger.Proofs.Tree.Arena

/-!
# How a tree lies in its arena

The shape of an arena depends on the number of leaves and on nothing else (`ArenaTree.Arranged`):
the rows halve, the numbers run through them from the leaves to the root, and a node at place `p`
has its children at the places `2 * p` and `2 * p + 1` of the row below. So the children of a node
are the places that halve to its own (`ArenaTree.Stores.isParent_iff`). This is why each node has
one parent, and why what lies under a node is a stretch of positions.

The arena also answers each question as the tree does (`ArenaTree.Mirrors`). Numbers that it finds
in its rows are those of nodes, so that none of these lookups can fail.
-/

namespace BlockLedger

namespace ArenaTree

/-- **The shape of a tree of `n` leaves in an arena.** -/
structure Arranged (a : ArenaTree) (n : Nat) : Prop where
  empty : n = 0 → a.nodes = [] ∧ a.levels = []
  height : n ≠ 0 → a.levels.length = Nat.clog 2 n + 1
  width : ∀ (k : Nat) (row : List Nat), a.levels[k]? = some row →
    row.length = (n + 2 ^ k - 1) / 2 ^ k
  /-- The rows take all numbers one after the other, the lowest row first. -/
  consecutive : a.levels.flatten = List.range a.nodes.length
  leaf : ∀ p < n, ∃ d, a.nodes[p]? = some (.leaf d p)
  /-- Above the leaves, the children stand at the two places below, as far as there are such. -/
  parent : ∀ k p number, a.number? (k + 1) p = some number →
    ∃ d left, a.number? k (2 * p) = some left ∧
      a.nodes[number]? = some (.inner d left (a.number? k (2 * p + 1)))
  child_lt : ∀ parent child, a.IsParent parent child → child < parent
  parent_unique : ∀ number < a.nodes.length, a.root? ≠ some number →
    ∃! parent, a.IsParent parent number
  /-- What is found in the rows can be looked up. -/
  lookup : ∀ row ∈ a.levels, ∀ number ∈ row, number < a.nodes.length
  covers : ∀ k p number, a.number? k p = some number →
    a.leavesUnder number = List.range' (p * 2 ^ k) (min n ((p + 1) * 2 ^ k) - p * 2 ^ k)

/-- **An arena that answers as the tree does.** A hash is looked up in two steps: the place has a
number, if there is such a place, and then the node with this number has to be there. -/
structure Mirrors (a : ArenaTree) (t : Tree) : Prop where
  nodes : a.nodes = t.nodes
  hashes : ∀ k q, (a.number? k q).map a.hash? = (t.hashAt? k q).map some
  root : a.root? = t.rootNumber?
  rootHash : a.root?.map a.hash? = t.rootHash?.map some
  leavesUnder : ∀ number, a.leavesUnder number = t.leavesUnder number

variable {a : ArenaTree} {t : Tree} {k q number : Nat}

namespace Stores

/-! ### Lookups -/

theorem hashes (h : a.Stores t) (k q : Nat) :
    (a.number? k q).map a.hash? = (t.hashAt? k q).map some := by
  by_cases hq : q < t.width k
  · obtain ⟨s, hs⟩ := Tree.exists_at? hq
    rw [h.number?_eq_some_iff.2 ⟨hq, rfl⟩, Option.map_some, h.hash?_of_at? hs, Tree.hashAt?, hs]
    rfl
  · have hnone : t.at? k q = none := List.getElem?_eq_none (Nat.not_lt.1 hq)
    rw [h.number?_eq_none_iff.2 (Nat.not_lt.1 hq), Tree.hashAt?, hnone]
    rfl

/-- The root stands at the first place of the last row. -/
theorem root?_eq (h : a.Stores t) : a.root? = a.number? (t.height - 1) 0 := by
  rw [root?, number?, List.getLast?_eq_getElem?, h.length_levels]
  cases a.levels[t.height - 1]? with
  | none => rfl
  | some row => rw [Option.bind_some, Option.bind_some, List.head?_eq_getElem?]

theorem root?_of_leaves (h : a.Stores t) (hne : t.leaves ≠ []) :
    a.root? = some (t.firstNumber (t.height - 1)) := by
  rw [h.root?_eq, h.number?_eq_some_iff, Tree.width_last (Tree.height_pos hne)]
  exact ⟨Nat.one_pos, rfl⟩

theorem levels_of_no_leaves (h : a.Stores t) (hnil : t.leaves = []) : a.levels = [] := by
  rw [h.levels, Tree.rows_of_no_leaves hnil, numbersFrom]

theorem root?_of_no_leaves (h : a.Stores t) (hnil : t.leaves = []) : a.root? = none := by
  rw [root?, h.levels_of_no_leaves hnil]
  rfl

theorem leavesUnder_eq (h : a.Stores t) (number : Nat) :
    a.leavesUnder number = t.leavesUnder number := by
  by_cases hlt : number < t.nodes.length
  · obtain ⟨k, q, hq, rfl⟩ := Tree.exists_place hlt
    obtain ⟨s, hs⟩ := Tree.exists_at? hq
    rw [h.leavesUnder_of_at? hs, Tree.leavesUnder, Tree.subtree?_of_place hq, hs]
    rfl
  · -- there is neither a node nor a subtree with this number
    have hnode : a.nodes[number]? = none :=
      List.getElem?_eq_none (h.nodes ▸ Nat.not_lt.1 hlt)
    have hsubtree : t.subtree? number = none :=
      List.getElem?_eq_none (Tree.length_nodes (t := t) ▸ Nat.not_lt.1 hlt)
    rw [Arena.leavesUnder, Arena.walk_of_none hnode, Arena.walk_nil, Tree.leavesUnder, hsubtree]
    rfl

theorem mirrors (h : a.Stores t) : a.Mirrors t where
  nodes := h.nodes
  hashes := h.hashes
  root := by
    rw [Tree.rootNumber?, Tree.isEmpty]
    split
    next hnil => exact h.root?_of_no_leaves (List.isEmpty_iff.1 hnil)
    next hne => exact h.root?_of_leaves (mt List.isEmpty_iff.2 hne)
  rootHash := by
    by_cases hnil : t.leaves = []
    · rw [h.root?_of_no_leaves hnil, Tree.rootHash?, Tree.root?, Tree.rows_of_no_leaves hnil]
      rfl
    · rw [h.root?_eq, h.hashes, Tree.rootHash?_eq_hashAt? (Tree.height_pos hnil)]
  leavesUnder := h.leavesUnder_eq

/-! ### Parents and children -/

theorem number?_right (h : a.Stores t) (k q : Nat) :
    a.number? k (2 * q + 1) = t.rightNumber? k q := by
  rw [Tree.rightNumber?]
  split
  next hlt => exact h.number?_eq_some_iff.2 ⟨hlt, rfl⟩
  next hle => exact h.number?_eq_none_iff.2 (Nat.not_lt.1 hle)

theorem parent (h : a.Stores t) (hnumber : a.number? (k + 1) q = some number) :
    ∃ d left, a.number? k (2 * q) = some left ∧
      a.nodes[number]? = some (.inner d left (a.number? k (2 * q + 1))) := by
  obtain ⟨hq, rfl⟩ := h.number?_eq_some_iff.1 hnumber
  obtain ⟨s, hs⟩ := Tree.exists_at? hq
  have hleft : 2 * q < t.width k := by
    rw [Tree.width_succ (Tree.lt_height_of_lt_width hq)] at hq
    omega
  refine ⟨s.hash, t.firstNumber k + 2 * q, h.number?_eq_some_iff.2 ⟨hleft, rfl⟩, ?_⟩
  rw [h.node?_eq, h.number?_right, Tree.node?_inner hs]

/-- **The children** of a node above the leaves stand at the places that halve to its own. -/
theorem isParent_iff (h : a.Stores t) {p : Nat} (hp : p < t.width (k + 1)) :
    a.IsParent (t.firstNumber (k + 1) + p) number ↔
      ∃ q, q < t.width k ∧ q / 2 = p ∧ t.firstNumber k + q = number := by
  obtain ⟨d, left, hleft, hnode⟩ := h.parent (h.number?_eq_some_iff.2 ⟨hp, rfl⟩)
  obtain ⟨hlt, rfl⟩ := h.number?_eq_some_iff.1 hleft
  constructor
  · rintro ⟨node, hnode', hchild⟩
    obtain rfl := Option.some.inj (hnode.symm.trans hnode')
    rcases List.mem_cons.1 hchild with rfl | hchild
    · exact ⟨2 * p, hlt, by omega, rfl⟩
    · obtain ⟨hright, rfl⟩ := h.number?_eq_some_iff.1 (Option.mem_toList.1 hchild)
      exact ⟨2 * p + 1, hright, by omega, rfl⟩
  · rintro ⟨q, hq, rfl, rfl⟩
    refine ⟨_, hnode, ?_⟩
    rcases eq_left_or_eq_right q with hside | hside
    · rw [← hside]
      exact List.mem_cons_self
    · have hright : a.number? k (2 * (q / 2) + 1) = some (t.firstNumber k + q) := by
        rw [← hside]
        exact h.number?_eq_some_iff.2 ⟨hq, rfl⟩
      exact List.mem_cons_of_mem _ (Option.mem_toList.2 hright)

/-- Leaves are no parents. -/
theorem not_isParent_zero (h : a.Stores t) {p : Nat} (hp : p < t.width 0) :
    ¬ a.IsParent (t.firstNumber 0 + p) number := by
  rintro ⟨node, hnode, hchild⟩
  rw [Tree.width_zero] at hp
  rw [Tree.firstNumber_zero, Nat.zero_add, h.node?_eq,
    Tree.node?_leaf (List.getElem?_eq_getElem hp)] at hnode
  cases hnode
  exact List.not_mem_nil hchild

/-- **Each node but the root is a child of one node.** -/
theorem parent_unique (h : a.Stores t) (hlt : number < a.nodes.length)
    (hroot : a.root? ≠ some number) : ∃! parent, a.IsParent parent number := by
  rw [h.nodes] at hlt
  obtain ⟨k, q, hq, rfl⟩ := Tree.exists_place hlt
  -- a node of the last row would be the root
  have hk : k + 1 < t.height := by
    by_contra hlast
    have hheight : 0 < t.height := Nat.zero_lt_of_lt (Tree.lt_height_of_lt_width hq)
    obtain rfl : k = t.height - 1 := by
      have hle := Tree.lt_height_of_lt_width hq
      omega
    rw [Tree.width_last hheight, Nat.lt_one_iff] at hq
    rw [hq, h.root?_of_leaves (Tree.leaves_ne_nil_of_height_pos hheight)] at hroot
    exact hroot rfl
  have habove : q / 2 < t.width (k + 1) := by
    rw [Tree.width_succ hk]
    omega
  refine ⟨t.firstNumber (k + 1) + q / 2, (h.isParent_iff habove).2 ⟨q, hq, rfl, rfl⟩, ?_⟩
  intro parent hparent
  obtain ⟨k', p, hp, rfl⟩ := Tree.exists_place (h.nodes ▸ hparent.lt_length)
  cases k' with
  | zero => exact absurd hparent (h.not_isParent_zero hp)
  | succ k' =>
    obtain ⟨q', hq', rfl, hnumber⟩ := (h.isParent_iff hp).1 hparent
    obtain ⟨rfl, rfl⟩ := Tree.place_unique hq' hq hnumber
    rfl

/-! ### The shape -/

theorem consecutive (h : a.Stores t) : a.levels.flatten = List.range a.nodes.length := by
  rw [h.levels, flatten_numbersFrom, h.nodes, Tree.length_nodes, List.range_eq_range']

theorem arranged (h : a.Stores t) : a.Arranged t.leafCount where
  empty hzero := by
    have hnil : t.leaves = [] := List.length_eq_zero_iff.1 hzero
    refine ⟨?_, h.levels_of_no_leaves hnil⟩
    rw [h.nodes, Tree.nodes, Tree.rows_of_no_leaves hnil, nodesFrom]
  height hne := by
    have hheight : 0 < t.height := Tree.height_pos (mt List.length_eq_zero_iff.2 hne)
    rw [h.length_levels, Tree.clog_leafCount hheight, Nat.sub_add_cancel hheight]
  width k row hrow := by
    obtain ⟨hk, rfl⟩ := h.getElem?_levels hrow
    rw [List.length_range', Tree.width_eq_ceil hk]
  consecutive := h.consecutive
  leaf p hp := ⟨_, (h.node?_eq p).trans (Tree.node?_leaf (List.getElem?_eq_getElem hp))⟩
  parent k p number hnumber := h.parent hnumber
  child_lt _ _ hparent := hparent.lt
  parent_unique number hlt hroot := h.parent_unique hlt hroot
  lookup row hrow number hnumber := by
    have hmem : number ∈ a.levels.flatten := List.mem_flatten.2 ⟨row, hrow, hnumber⟩
    rwa [h.consecutive, List.mem_range] at hmem
  covers k p number hnumber := by
    obtain ⟨hp, rfl⟩ := h.number?_eq_some_iff.1 hnumber
    obtain ⟨s, hs⟩ := Tree.exists_at? hp
    rw [h.leavesUnder_of_at? hs, Tree.positions_of_at? hs]

end Stores

/-- **Building a tree in an arena** always has a result, so that no lookup fails and the loop ends.
The arena has the shape that belongs to the number of leaves, and answers as the tree over the same
leaves does. -/
theorem build_arranged (items : List (String × Bytes)) :
    ∃ a, build (items.map fun i => .of i.1 i.2) = some a ∧ a.Arranged items.length ∧
      a.Mirrors (Tree.build items) := by
  obtain ⟨a, ha, hstores⟩ := exists_build (items.map fun i => Leaf.of i.1 i.2)
  have hcount : (Tree.build items).leafCount = items.length := Tree.leafCount_build items
  refine ⟨a, ha, ?_, hstores.mirrors⟩
  rw [← hcount]
  exact hstores.arranged

end ArenaTree

end BlockLedger
