import BlockLedger.Proofs.Tree.Rows
import BlockLedger.Tree.Numbering

/-!
# Places and numbers

The nodes of a tree are numbered row by row, so place `q` of row `k` has the number of the first
node of the row and `q` more. Every number of a node is that of a place (`Tree.exists_place`), and
of one place only (`Tree.place_unique`).

What the node with a number is can then be said of its place: a leaf at its position
(`Tree.node?_leaf`), or above the leaves a node whose children have the numbers of the two places
below it, as far as the row below reaches (`Tree.node?_inner`).
-/

namespace BlockLedger

/-! ### Rows behind one another -/

section Flatten

variable {α : Type} {rows : List (List α)} {row : List α} {k q : Nat}

/-- Behind the rows before it, a row has its own elements. -/
theorem getElem?_flatten_of_row (hrow : rows[k]? = some row) (hq : q < row.length) :
    rows.flatten[(rows.take k).flatten.length + q]? = row[q]? := by
  induction rows generalizing k with
  | nil => cases hrow
  | cons first rest ih =>
    cases k with
    | zero =>
      obtain rfl : first = row := Option.some.inj hrow
      rw [List.take_zero, List.flatten_nil, List.length_nil, Nat.zero_add, List.flatten_cons,
        List.getElem?_append_left hq]
    | succ k =>
      rw [List.take_succ_cons, List.flatten_cons, List.flatten_cons, List.length_append,
        Nat.add_assoc, List.getElem?_append_right (Nat.le_add_right _ _), Nat.add_sub_cancel_left]
      exact ih hrow

/-- Every element behind another stands in some row. -/
theorem exists_row_of_lt {i : Nat} (h : i < rows.flatten.length) :
    ∃ k row q, rows[k]? = some row ∧ q < row.length ∧ (rows.take k).flatten.length + q = i := by
  induction rows generalizing i with
  | nil => exact absurd h (Nat.not_lt_zero i)
  | cons first rest ih =>
    rw [List.flatten_cons, List.length_append] at h
    by_cases hi : i < first.length
    · exact ⟨0, first, i, rfl, hi, Nat.zero_add i⟩
    · obtain ⟨k, row, q, hrow, hq, hsum⟩ := ih (i := i - first.length) (by omega)
      refine ⟨k + 1, row, q, hrow, hq, ?_⟩
      rw [List.take_succ_cons, List.flatten_cons, List.length_append]
      omega

end Flatten

theorem length_nodesFrom (below start : Nat) (rows : List (List Subtree)) :
    (nodesFrom below start rows).length = rows.flatten.length := by
  induction rows generalizing below start with
  | nil => rfl
  | cons row rows ih =>
    rw [nodesFrom, List.length_append, List.length_map, List.length_zipIdx, ih, List.flatten_cons,
      List.length_append]

/-- The number that the row below row `k` starts with. -/
def startBelow (below start : Nat) (rows : List (List Subtree)) : Nat → Nat
  | 0 => below
  | k + 1 => start + (rows.take k).flatten.length

theorem getElem?_nodesFrom (below start : Nat) {k q : Nat} {rows : List (List Subtree)}
    {row : List Subtree} (hrow : rows[k]? = some row) (hq : q < row.length) :
    (nodesFrom below start rows)[(rows.take k).flatten.length + q]? =
      row[q]?.map (Subtree.node (startBelow below start rows k) q) := by
  induction rows generalizing k below start with
  | nil => cases hrow
  | cons first rest ih =>
    have hfirst : (first.zipIdx.map fun s => s.1.node below s.2).length = first.length := by
      rw [List.length_map, List.length_zipIdx]
    cases k with
    | zero =>
      obtain rfl : first = row := Option.some.inj hrow
      rw [List.take_zero, List.flatten_nil, List.length_nil, Nat.zero_add, nodesFrom,
        List.getElem?_append_left (hfirst ▸ hq), List.getElem?_map, List.getElem?_zipIdx,
        Option.map_map, Nat.zero_add]
      rfl
    | succ k =>
      have hstart : startBelow start (start + first.length) rest k =
          startBelow below start (first :: rest) (k + 1) := by
        cases k with
        | zero => rfl
        | succ k =>
          rw [startBelow, startBelow, List.take_succ_cons, List.flatten_cons, List.length_append,
            Nat.add_assoc]
      rw [List.take_succ_cons, List.flatten_cons, List.length_append, Nat.add_assoc, nodesFrom,
        List.getElem?_append_right (hfirst ▸ Nat.le_add_right _ _), hfirst, Nat.add_sub_cancel_left,
        ← hstart]
      exact ih start (start + first.length) hrow

namespace Tree

variable {t : Tree} {k k' q q' number : Nat} {s : Subtree}

/-! ### Numbers of places -/

theorem firstNumber_zero : t.firstNumber 0 = 0 := rfl

/-- **The numbers of a row** follow those of the row below it. -/
theorem firstNumber_succ : t.firstNumber (k + 1) = t.firstNumber k + t.width k := by
  rw [firstNumber, List.take_add_one, List.flatten_append, List.length_append, firstNumber, width,
    row, List.getD_eq_getElem?_getD]
  cases t.rows[k]? with
  | none => rfl
  | some row => rw [Option.toList_some, List.flatten_singleton, Option.getD_some]

/-- A lower row ends before a higher one starts. -/
theorem firstNumber_add_width_le (h : k < k') : t.firstNumber k + t.width k ≤ t.firstNumber k' := by
  have hmono : Monotone t.firstNumber := monotone_nat_of_le_succ fun k => by
    rw [firstNumber_succ]
    exact Nat.le_add_right _ _
  rw [← firstNumber_succ]
  exact hmono h

theorem length_nodes : t.nodes.length = t.rows.flatten.length := length_nodesFrom 0 0 t.rows

theorem lt_height_of_lt_width (h : q < t.width k) : k < t.height := by
  obtain ⟨s, hs⟩ := exists_at? h
  exact lt_height_of_at? hs

/-- **Every number of a node** is that of a place. -/
theorem exists_place (h : number < t.nodes.length) :
    ∃ k q, q < t.width k ∧ t.firstNumber k + q = number := by
  rw [length_nodes] at h
  obtain ⟨k, row, q, hrow, hq, hsum⟩ := exists_row_of_lt h
  refine ⟨k, q, ?_, hsum⟩
  rwa [width, Tree.row, List.getD_eq_getElem?_getD, hrow, Option.getD_some]

/-- **A number is that of one place** at most. -/
theorem place_unique (hq : q < t.width k) (hq' : q' < t.width k')
    (h : t.firstNumber k + q = t.firstNumber k' + q') : k = k' ∧ q = q' := by
  rcases Nat.lt_trichotomy k k' with hlt | rfl | hlt
  · have hends := firstNumber_add_width_le (t := t) hlt
    omega
  · exact ⟨rfl, Nat.add_left_cancel h⟩
  · have hends := firstNumber_add_width_le (t := t) hlt
    omega

/-! ### Nodes at places -/

theorem subtree?_of_place (h : q < t.width k) : t.subtree? (t.firstNumber k + q) = t.at? k q :=
  getElem?_flatten_of_row (getElem?_rows (lt_height_of_lt_width h)) h

theorem node?_of_at? (hs : t.at? k q = some s) :
    t.node? (t.firstNumber k + q) = some (s.node (startBelow 0 0 t.rows k) q) := by
  have hrow := getElem?_rows (lt_height_of_at? hs)
  have hnode := getElem?_nodesFrom 0 0 hrow (lt_width_of_at? hs)
  rw [at?] at hs
  rw [node?, nodes, firstNumber, hnode, hs, Option.map_some]

/-- **The first numbers** are those of the leaves, at their positions. -/
theorem node?_leaf {l : Leaf} (h : t.leaves[q]? = some l) : t.node? q = some (.leaf l.hash q) := by
  have hs : t.at? 0 q = some (.leaf q l) := by rw [at?_zero, h, Option.map_some]
  have hnode := node?_of_at? hs
  rwa [firstNumber_zero, Nat.zero_add] at hnode

/-- The number of the place on the right below, if the row below reaches so far. -/
def rightNumber? (t : Tree) (k q : Nat) : Option Nat :=
  if 2 * q + 1 < t.width k then some (t.firstNumber k + (2 * q + 1)) else none

/-- **The node at a place above the leaves** has the nodes at the two places below as children. -/
theorem node?_inner (hs : t.at? (k + 1) q = some s) :
    t.node? (t.firstNumber (k + 1) + q) =
      some (.inner s.hash (t.firstNumber k + 2 * q) (t.rightNumber? k q)) := by
  have hstart : startBelow 0 0 t.rows (k + 1) = t.firstNumber k := Nat.zero_add _
  rw [node?_of_at? hs, hstart, rightNumber?]
  rcases at?_succ_eq_some hs with ⟨c, -, hwidth, rfl⟩ | ⟨l, r, -, hr, rfl⟩
  · rw [if_neg (by omega)]
    rfl
  · rw [if_pos (lt_width_of_at? hr)]
    rfl

end Tree

end BlockLedger
