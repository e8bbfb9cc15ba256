import BlockLedger.Tree.Numbering
import Mathlib.Algebra.Ring.Nat

/-!
# Trees in an arena

A tree can be kept in one growing list of nodes that name their children by numbers, with the
numbers of each row beside it. The loop that builds it takes the numbers of the last row two by two,
looks up the hashes of these nodes and appends their parent, until a row has a single number
(`Arena.addRows`). The leaves under a node are found with a stack of numbers (`Arena.walk`).

A lookup can fail: a row may have numbers that no node has. Building has a result only if none does.

**Order.** The children of a node have smaller numbers than the node itself, and an arena carries
this with it (`Arena.ordered`). Building does not have to take care of it, as a parent is appended
when its children have been found. The walk ends because of it: the number on top of the stack is
replaced by two at most, both of them smaller (`weight_children_lt`).
-/

namespace BlockLedger

namespace Node

/-- The hash of a node. -/
def hash : Node → Digest
  | .leaf h _ => h
  | .inner h _ _ => h

/-- The numbers of a node's children, from left to right. -/
def children : Node → List Nat
  | .leaf _ _ => []
  | .inner _ left right => left :: right.toList

end Node

/-! ### Weights -/

/-- What a stack of numbers weighs: each of them more than any two that are smaller. -/
def weight (stack : List Nat) : Nat := (stack.map (3 ^ ·)).sum

theorem weight_cons (number : Nat) (stack : List Nat) :
    weight (number :: stack) = 3 ^ number + weight stack := by
  rw [weight, List.map_cons, List.sum_cons, weight]

theorem weight_append (stack rest : List Nat) :
    weight (stack ++ rest) = weight stack + weight rest := by
  rw [weight, List.map_append, List.sum_append, weight, weight]

theorem weight_children_lt {node : Node} {number : Nat}
    (h : ∀ c ∈ node.children, c < number) : weight node.children < 3 ^ number := by
  have hpow : ∀ {c : Nat}, c < number → 3 * 3 ^ c ≤ 3 ^ number := fun hc => by
    rw [← Nat.pow_succ']
    exact Nat.pow_le_pow_right (by decide) hc
  have hpos : 0 < 3 ^ number := Nat.pow_pos (by decide)
  cases node with
  | leaf _ _ => exact hpos
  | inner _ left right =>
    have hleft := hpow (h left List.mem_cons_self)
    cases right with
    | none =>
      change 3 ^ left + 0 < 3 ^ number
      omega
    | some right =>
      have hright := hpow (h right (List.mem_cons_of_mem left List.mem_cons_self))
      change 3 ^ left + (3 ^ right + 0) < 3 ^ number
      omega

/-! ### Arenas -/

/-- **An arena**: nodes that have their places in the list as numbers, each of them behind its
children. -/
structure Arena where
  nodes : List Node
  ordered : ∀ (number : Nat) (node : Node), nodes[number]? = some node →
    ∀ c ∈ node.children, c < number

namespace Arena

/-- The arena without nodes. -/
def empty : Arena := ⟨[], fun _ _ h => nomatch h⟩

/-- The arena of the leaves at their positions. -/
def ofLeaves (leaves : List Leaf) : Arena where
  nodes := leaves.zipIdx.map fun l => .leaf l.1.hash l.2
  ordered := by
    intro number node h c hc
    rw [List.getElem?_map, Option.map_eq_some_iff] at h
    obtain ⟨l, -, rfl⟩ := h
    exact absurd hc List.not_mem_nil

variable {a : Arena}

/-- The hash of the node with a number, if there is such a node. -/
def hash? (a : Arena) (number : Nat) : Option Digest := a.nodes[number]?.map Node.hash

theorem lt_of_hash? {number : Nat} {d : Digest} (h : a.hash? number = some d) :
    number < a.nodes.length := by
  obtain ⟨node, hnode, -⟩ := Option.map_eq_some_iff.1 h
  exact (List.getElem?_eq_some_iff.1 hnode).1

/-- Whether the node with the second number is a child of the one with the first. -/
def IsParent (a : Arena) (parent child : Nat) : Prop :=
  ∃ node : Node, a.nodes[parent]? = some node ∧ child ∈ node.children

theorem IsParent.lt {parent child : Nat} (h : a.IsParent parent child) : child < parent := by
  obtain ⟨node, hnode, hchild⟩ := h
  exact a.ordered parent node hnode child hchild

theorem IsParent.lt_length {parent child : Nat} (h : a.IsParent parent child) :
    parent < a.nodes.length := by
  obtain ⟨node, hnode, -⟩ := h
  exact (List.getElem?_eq_some_iff.1 hnode).1

/-- One more node, with children among those that are there. -/
def push (a : Arena) (node : Node) (h : ∀ c ∈ node.children, c < a.nodes.length) : Arena where
  nodes := a.nodes ++ [node]
  ordered := by
    intro number added hadded c hc
    rw [List.getElem?_append] at hadded
    split at hadded
    · exact a.ordered number added hadded c hc
    · next hge =>
      -- only the new node stands behind the others
      have hnew : added = node := List.mem_singleton.1 (List.mem_of_getElem? hadded)
      rw [hnew] at hc
      exact Nat.lt_of_lt_of_le (h c hc) (Nat.not_lt.1 hge)

/-- **A parent** for the node on the left and the one on the right, or for the left one alone, which
counts twice then. None if one of them is not found. -/
def addParent (a : Arena) (left : Nat) (right : Option Nat) : Option Arena :=
  match hl : a.hash? left, hr : a.hash? (right.getD left) with
  | some l, some r => some <| a.push (.inner (.ofPair l r) left right) <| by
      intro c hc
      rcases List.mem_cons.1 hc with rfl | hc
      · exact lt_of_hash? hl
      · rw [Option.mem_toList.1 hc] at hr
        exact lt_of_hash? hr
  | _, _ => none

/-- **One more row**: a parent for each two neighbours of a row, with the numbers of the parents. -/
def addRow (a : Arena) : List Nat → Option (Arena × List Nat)
  | [] => some (a, [])
  | [left] => (a.addParent left none).map fun b => (b, [a.nodes.length])
  | left :: right :: rest =>
    (a.addParent left (some right)).bind fun b =>
      (b.addRow rest).map fun c => (c.1, a.nodes.length :: c.2)

theorem length_addRow {row above : List Nat} {b : Arena} (h : a.addRow row = some (b, above)) :
    above.length = (row.length + 1) / 2 := by
  fun_induction addRow a row generalizing b above with
  | case1 a =>
    cases h
    rfl
  | case2 a left =>
    obtain ⟨_, -, hb⟩ := Option.map_eq_some_iff.1 h
    cases hb
    rw [List.length_singleton, List.length_singleton]
  | case3 a left right rest ih =>
    obtain ⟨_, -, h⟩ := Option.bind_eq_some_iff.1 h
    obtain ⟨⟨c, numbers⟩, hc, hb⟩ := Option.map_eq_some_iff.1 h
    cases hb
    rw [List.length_cons, ih _ hc, List.length_cons, List.length_cons]
    omega

end Arena

/-- **A tree in an arena**: the nodes, and the numbers of those in each row. -/
structure ArenaTree extends Arena where
  levels : List (List Nat)

namespace Arena

/-- **The loop that adds rows**, until one has a single node or none. -/
def addRows (a : Arena) (row : List Nat) : Option ArenaTree :=
  if row.length ≤ 1 then some ⟨a, [row]⟩
  else
    match _ : a.addRow row with
    | none => none
    | some (b, above) => (b.addRows above).map fun t => ⟨t.toArena, row :: t.levels⟩
termination_by row.length
decreasing_by
  have habove := length_addRow ‹_›
  omega

/-- **The walk over the leaves** under the numbers on a stack, from left to right. The children of
an inner node take its place on top of the stack, the left one first; a number without a node is
dropped. -/
def walk (a : Arena) : List Nat → List Nat
  | [] => []
  | number :: stack =>
    match _ : a.nodes[number]? with
    | none => a.walk stack
    | some (.leaf _ position) => position :: a.walk stack
    | some (.inner hash left right) => a.walk ((Node.inner hash left right).children ++ stack)
termination_by stack => weight stack
decreasing_by
  all_goals rw [weight_cons]
  · exact Nat.lt_add_of_pos_left (Nat.pow_pos (by decide))
  · exact Nat.lt_add_of_pos_left (Nat.pow_pos (by decide))
  · rw [weight_append]
    exact Nat.add_lt_add_right (weight_children_lt (a.ordered number _ ‹_›)) _

/-- The positions of the leaves under the node with a number. -/
def leavesUnder (a : Arena) (number : Nat) : List Nat := a.walk [number]

end Arena

namespace ArenaTree

/-- **The tree over a list of leaves, built in an arena**; none if a lookup fails on the way. -/
def build (leaves : List Leaf) : Option ArenaTree :=
  if leaves.isEmpty then some ⟨.empty, []⟩
  else (Arena.ofLeaves leaves).addRows (List.range leaves.length)

variable (t : ArenaTree)

/-- The number at a place of a row. -/
def number? (level position : Nat) : Option Nat := t.levels[level]?.bind (·[position]?)

/-- The number of the root: the first one of the last row. -/
def root? : Option Nat := t.levels.getLast?.bind List.head?

end ArenaTree

end BlockLedger
