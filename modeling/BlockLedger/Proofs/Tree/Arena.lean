import BlockLedger.Proofs.Tree.Numbering
import BlockLedger.Tree.Arena

/-!
# The shape of a tree in an arena

The loop that builds a tree in an arena appends nodes that refer to others by number. It has a
result for every list of leaves, which means that every lookup finds a node, and the result has the
nodes of the tree in the order of their numbers (`ArenaTree.exists_build`).

**The loop.** What one round preserves is that the numbers of the last row lead to the subtrees of a
row of the tree (`Arena.Holds`). A round that starts with a row appends the nodes of the row above
it (`Arena.addRow_of_holds`), so that the numbers it gives lead to the subtrees of that row. The run
follows by the recursion of `rowsFrom` (`Arena.addRows_of_holds`).

**The walk.** A number on top of the stack is used up before those below it are looked at, and what
it adds are the positions under its place (`ArenaTree.Stores.walk_of_at?`). The induction goes
upwards from the leaves, since the numbers that come on the stack instead are those of the places
below.

The arithmetic of places and numbers then gives the shape of the arena (`ArenaTree.Arranged`), which
depends on the number of leaves only.
-/

namespace BlockLedger

/-- Subtrees know the hashes of their nodes. -/
theorem Subtree.hash_node (below position : Nat) (s : Subtree) :
    (s.node below position).hash = s.hash := by
  cases s <;> rfl

/-- The numbers of the rows, if the first number is `start`. -/
def numbersFrom (start : Nat) : List (List Subtree) → List (List Nat)
  | [] => []
  | row :: rows => List.range' start row.length :: numbersFrom (start + row.length) rows

theorem length_numbersFrom (start : Nat) (rows : List (List Subtree)) :
    (numbersFrom start rows).length = rows.length := by
  induction rows generalizing start with
  | nil => rfl
  | cons row rows ih => rw [numbersFrom, List.length_cons, ih, List.length_cons]

theorem getElem?_numbersFrom (start : Nat) (rows : List (List Subtree)) (k : Nat) :
    (numbersFrom start rows)[k]? =
      rows[k]?.map fun row => List.range' (start + (rows.take k).flatten.length) row.length := by
  induction rows generalizing start k with
  | nil => rfl
  | cons first rest ih =>
    cases k with
    | zero => rfl
    | succ k =>
      rw [numbersFrom, List.getElem?_cons_succ, ih, List.getElem?_cons_succ, List.take_succ_cons,
        List.flatten_cons, List.length_append, Nat.add_assoc]

/-- **The numbers of all rows**, one behind the other, leave no number out. -/
theorem flatten_numbersFrom (start : Nat) (rows : List (List Subtree)) :
    (numbersFrom start rows).flatten = List.range' start rows.flatten.length := by
  induction rows generalizing start with
  | nil => rfl
  | cons row rows ih =>
    rw [numbersFrom, List.flatten_cons, ih, List.flatten_cons, List.length_append,
      List.range'_append_1]

/-- The row that the rows are built from stands before those above it. -/
theorem rowsFrom_eq_cons (row : List Subtree) : rowsFrom row = row :: (rowsFrom row).tail := by
  rw [rowsFrom]
  split <;> rfl

/-! ### Building -/

namespace Arena

variable {a : Arena} {row : List Subtree} {below : Nat}

/-- **An arena holds a row** at the numbers from `below` on if it has nodes there with the hashes of
the subtrees. -/
def Holds (a : Arena) (below : Nat) (row : List Subtree) : Prop :=
  ∀ i s, row[i]? = some s → a.hash? (below + i) = some s.hash

theorem Holds.head {s : Subtree} (h : a.Holds below (s :: row)) : a.hash? below = some s.hash :=
  h 0 s rfl

theorem Holds.tail {s : Subtree} (h : a.Holds below (s :: row)) : a.Holds (below + 1) row := by
  intro i x hx
  have hhash := h (i + 1) x hx
  rwa [Nat.add_right_comm, Nat.add_assoc]

theorem addParent_eq (right : Option Nat) {left : Nat} {l r : Digest} (hl : a.hash? left = some l)
    (hr : a.hash? (right.getD left) = some r) :
    ∃ b, a.addParent left right = some b ∧
      b.nodes = a.nodes ++ [.inner (.ofPair l r) left right] := by
  rw [addParent]
  split
  next l' r' hl' hr' =>
    rw [hl] at hl'
    rw [hr] at hr'
    cases hl'
    cases hr'
    exact ⟨_, rfl, rfl⟩
  next hnone => exact absurd hr (hnone l r hl)

/-- More nodes behind those that are there do not change what is held. -/
theorem Holds.of_nodes_append {b : Arena} {nodes : List Node} (h : a.Holds below row)
    (hb : b.nodes = a.nodes ++ nodes) : b.Holds below row := by
  intro i s hs
  have hhash := h i s hs
  rw [hash?, hb, List.getElem?_append_left (lt_of_hash? hhash)]
  exact hhash

/-- **One round of the loop** appends the nodes of the row above, from pair `j` on. -/
theorem addRow_of_holds (j : Nat) (h : a.Holds (below + 2 * j) row) :
    ∃ b, a.addRow (List.range' (below + 2 * j) row.length) =
        some (b, List.range' a.nodes.length (rowAbove row).length) ∧
      b.nodes = a.nodes ++ ((rowAbove row).zipIdx j).map fun s => s.1.node below s.2 := by
  rw [rowAbove]
  fun_induction pairUp Subtree.wrap Subtree.join row generalizing a j with
  | case1 => exact ⟨a, rfl, (List.append_nil _).symm⟩
  | case2 s =>
    obtain ⟨b, hb, hnodes⟩ := addParent_eq none h.head h.head
    refine ⟨b, ?_, hnodes⟩
    change (a.addParent (below + 2 * j) none).map _ = _
    rw [hb]
    rfl
  | case3 s s' rest ih =>
    obtain ⟨b, hb, hnodes⟩ :=
      addParent_eq (some (below + 2 * j + 1)) h.head h.tail.head
    -- the rest starts two numbers further on, at the next pair
    have hrest : b.Holds (below + 2 * (j + 1)) rest := h.tail.tail.of_nodes_append hnodes
    obtain ⟨c, hc, hnodes'⟩ := ih (j + 1) hrest
    refine ⟨c, ?_, ?_⟩
    · change ((a.addParent (below + 2 * j) (some (below + 2 * j + 1))).bind fun b =>
        (b.addRow (List.range' (below + 2 * (j + 1)) rest.length)).map _) = _
      rw [hb, Option.bind_some, hc, Option.map_some, hnodes, List.length_append]
      rfl
    · rw [hnodes', hnodes, List.append_assoc]
      rfl

theorem addRows_of_le {numbers : List Nat} (h : numbers.length ≤ 1) :
    a.addRows numbers = some ⟨a, [numbers]⟩ := by
  rw [addRows, if_pos h]

theorem addRows_of_addRow {numbers above : List Nat} {b : Arena} (hlt : ¬ numbers.length ≤ 1)
    (h : a.addRow numbers = some (b, above)) :
    a.addRows numbers = (b.addRows above).map fun t => ⟨t.toArena, numbers :: t.levels⟩ := by
  rw [addRows, if_neg hlt]
  split
  next hnone => exact absurd (hnone.symm.trans h) (Option.some_ne_none _).symm
  next hsome =>
    cases hsome.symm.trans h
    rfl

/-- **The loop** appends the nodes of all rows above the last one. -/
theorem addRows_of_holds (hend : below + row.length = a.nodes.length) (h : a.Holds below row) :
    ∃ t, a.addRows (List.range' below row.length) = some t ∧
      t.nodes = a.nodes ++ nodesFrom below a.nodes.length (rowsFrom row).tail ∧
      t.levels = numbersFrom below (rowsFrom row) := by
  fun_induction rowsFrom row generalizing a below with
  | case1 row hle =>
    exact ⟨_, addRows_of_le (by rwa [List.length_range']), (List.append_nil _).symm, rfl⟩
  | case2 row hlt ih =>
    obtain ⟨b, hb, hnodes⟩ := addRow_of_holds 0 h
    rw [Nat.mul_zero, Nat.add_zero] at hb
    have hlength : b.nodes.length = a.nodes.length + (rowAbove row).length := by
      rw [hnodes, List.length_append, List.length_map, List.length_zipIdx]
    -- what has just been appended are the nodes of the row above
    have hholds : b.Holds a.nodes.length (rowAbove row) := by
      intro i s hs
      rw [hash?, hnodes, List.getElem?_append_right (Nat.le_add_right _ _), Nat.add_sub_cancel_left,
        List.getElem?_map, List.getElem?_zipIdx, hs, Option.map_some, Option.map_some,
        Option.map_some, Subtree.hash_node]
    obtain ⟨t, ht, hall, hlevels⟩ := ih hlength.symm hholds
    refine ⟨⟨t.toArena, List.range' below row.length :: t.levels⟩, ?_, ?_, ?_⟩
    · rw [addRows_of_addRow (by rwa [List.length_range']) hb, ht, Option.map_some]
    · rw [List.tail_cons, rowsFrom_eq_cons (rowAbove row), nodesFrom]
      change t.nodes = _
      rw [hall, hnodes, List.append_assoc, ← hlength, ← hnodes]
    · rw [numbersFrom, hend, ← hlevels]

end Arena

/-! ### Walking -/

namespace Arena

variable {a : Arena} {number : Nat} {stack : List Nat}

theorem walk_nil : a.walk [] = [] := by rw [walk]

/-- One round of the walk. -/
theorem walk_cons (a : Arena) (number : Nat) (stack : List Nat) :
    a.walk (number :: stack) =
      match a.nodes[number]? with
      | none => a.walk stack
      | some (.leaf _ position) => position :: a.walk stack
      | some (.inner d left right) => a.walk ((Node.inner d left right).children ++ stack) := by
  rw [walk]
  split
  all_goals next h => rw [h]

theorem walk_of_none (h : a.nodes[number]? = none) : a.walk (number :: stack) = a.walk stack := by
  rw [walk_cons, h]

theorem walk_of_leaf {d : Digest} {position : Nat}
    (h : a.nodes[number]? = some (.leaf d position)) :
    a.walk (number :: stack) = position :: a.walk stack := by
  rw [walk_cons, h]

theorem walk_of_inner {d : Digest} {left : Nat} {right : Option Nat}
    (h : a.nodes[number]? = some (.inner d left right)) :
    a.walk (number :: stack) = a.walk (left :: (right.toList ++ stack)) := by
  rw [walk_cons, h]
  rfl

end Arena

/-! ### Places and lookups -/

namespace ArenaTree

variable {a : ArenaTree} {t : Tree} {k q number : Nat} {s : Subtree}

/-- **An arena stores a tree** if it has the nodes of the tree and the numbers of its rows. -/
structure Stores (a : ArenaTree) (t : Tree) : Prop where
  nodes : a.nodes = t.nodes
  levels : a.levels = numbersFrom 0 t.rows

/-- The leaves as nodes are those of the lowest row. -/
theorem nodes_ofLeaves (leaves : List Leaf) :
    (Arena.ofLeaves leaves).nodes = (leafRow leaves).zipIdx.map fun s => s.1.node 0 s.2 := by
  apply List.ext_getElem?
  intro i
  rw [Arena.ofLeaves, leafRow, List.getElem?_map, List.getElem?_zipIdx, List.getElem?_map,
    List.getElem?_zipIdx, List.getElem?_map, List.getElem?_zipIdx, Option.map_map, Option.map_map,
    Option.map_map, Option.map_map]
  simp only [Function.comp_def, Nat.zero_add]
  rfl

/-- **Building succeeds**, and stores the tree. -/
theorem exists_build (leaves : List Leaf) :
    ∃ a, build leaves = some a ∧ a.Stores (Tree.ofLeaves leaves) := by
  rw [build]
  by_cases hnil : leaves = []
  · subst hnil
    exact ⟨_, rfl, rfl, rfl⟩
  · have hlength : 0 + (leafRow leaves).length = (Arena.ofLeaves leaves).nodes.length := by
      rw [nodes_ofLeaves, List.length_map, List.length_zipIdx, Nat.zero_add]
    have hholds : (Arena.ofLeaves leaves).Holds 0 (leafRow leaves) := by
      intro i s hs
      rw [Nat.zero_add, Arena.hash?, nodes_ofLeaves, List.getElem?_map, List.getElem?_zipIdx, hs,
        Option.map_some, Option.map_some, Option.map_some, Subtree.hash_node]
    have hrows : (Tree.ofLeaves leaves).rows = rowsFrom (leafRow leaves) :=
      Tree.rows_of_leaves (t := Tree.ofLeaves leaves) hnil
    obtain ⟨a, ha, hnodes, hlevels⟩ := Arena.addRows_of_holds hlength hholds
    rw [if_neg (by simpa using hnil), List.range_eq_range', ← length_leafRow]
    refine ⟨a, ha, ?_, by rw [hlevels, hrows]⟩
    rw [hnodes, Tree.nodes, hrows, rowsFrom_eq_cons, nodesFrom, ← hlength, nodes_ofLeaves]
    rfl

namespace Stores

theorem node?_eq (h : a.Stores t) (number : Nat) : a.nodes[number]? = t.node? number := by
  rw [h.nodes, Tree.node?]

theorem length_levels (h : a.Stores t) : a.levels.length = t.height := by
  rw [h.levels, length_numbersFrom, Tree.height]

theorem getElem?_levels (h : a.Stores t) {row : List Nat} (hrow : a.levels[k]? = some row) :
    k < t.height ∧ row = List.range' (t.firstNumber k) (t.width k) := by
  have hk : k < t.height := h.length_levels ▸ (List.getElem?_eq_some_iff.1 hrow).1
  rw [h.levels, getElem?_numbersFrom, Tree.getElem?_rows hk, Option.map_some, Nat.zero_add] at hrow
  exact ⟨hk, (Option.some.inj hrow).symm⟩

/-- **The number at a place** is that of the first node of the row and as many more as the place is
away from it. -/
theorem number?_eq_some_iff (h : a.Stores t) :
    a.number? k q = some number ↔ q < t.width k ∧ t.firstNumber k + q = number := by
  rw [number?, Option.bind_eq_some_iff]
  constructor
  · rintro ⟨row, hrow, hnumber⟩
    obtain ⟨-, rfl⟩ := h.getElem?_levels hrow
    obtain ⟨hq, hnumber⟩ := List.getElem?_eq_some_iff.1 hnumber
    rw [List.length_range'] at hq
    rw [List.getElem_range', Nat.one_mul] at hnumber
    exact ⟨hq, hnumber⟩
  · rintro ⟨hq, rfl⟩
    have hk : k < a.levels.length := h.length_levels ▸ Tree.lt_height_of_lt_width hq
    obtain ⟨-, hrow⟩ := h.getElem?_levels (List.getElem?_eq_getElem hk)
    refine ⟨_, List.getElem?_eq_getElem hk, ?_⟩
    rw [hrow, List.getElem?_range' hq, Nat.one_mul]

theorem number?_eq_none_iff (h : a.Stores t) : a.number? k q = none ↔ t.width k ≤ q := by
  rw [Option.eq_none_iff_forall_ne_some, ← Nat.not_lt]
  constructor
  · intro hnone hq
    exact hnone _ (h.number?_eq_some_iff.2 ⟨hq, rfl⟩)
  · intro hq number hnumber
    exact hq (h.number?_eq_some_iff.1 hnumber).1

theorem hash?_of_at? (h : a.Stores t) (hs : t.at? k q = some s) :
    a.hash? (t.firstNumber k + q) = some s.hash := by
  rw [Arena.hash?, h.node?_eq, Tree.node?_of_at? hs, Option.map_some, Subtree.hash_node]

/-- **The walk over a place** gives the positions under it and goes on with the rest. -/
theorem walk_of_at? (h : a.Stores t) (hs : t.at? k q = some s) (stack : List Nat) :
    a.walk ((t.firstNumber k + q) :: stack) = s.positions ++ a.walk stack := by
  induction k generalizing q s stack with
  | zero =>
    rw [Tree.at?_zero, Option.map_eq_some_iff] at hs
    obtain ⟨l, hl, rfl⟩ := hs
    rw [Tree.firstNumber_zero, Nat.zero_add, Arena.walk_of_leaf (h.node?_eq q ▸ Tree.node?_leaf hl)]
    rfl
  | succ k ih =>
    have hnode := Tree.node?_inner hs
    rw [← h.node?_eq] at hnode
    rw [Arena.walk_of_inner hnode]
    rcases Tree.at?_succ_eq_some hs with ⟨c, hc, hwidth, rfl⟩ | ⟨l, r, hl, hr, rfl⟩
    · have hright : t.rightNumber? k q = none := if_neg (by omega)
      rw [hright, Option.toList_none, List.nil_append, ih hc]
      rfl
    · -- the left child is used up before the right one comes to the top
      have hright : t.rightNumber? k q = some (t.firstNumber k + (2 * q + 1)) :=
        if_pos (Tree.lt_width_of_at? hr)
      have hpositions : (l.join r).positions = l.positions ++ r.positions := List.map_append
      rw [hright, Option.toList_some, List.singleton_append, ih hl, ih hr, hpositions,
        List.append_assoc]

theorem leavesUnder_of_at? (h : a.Stores t) (hs : t.at? k q = some s) :
    a.leavesUnder (t.firstNumber k + q) = s.positions := by
  rw [Arena.leavesUnder, h.walk_of_at? hs, Arena.walk_nil, List.append_nil]

end Stores

end ArenaTree

end BlockLedger
