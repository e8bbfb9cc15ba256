import BlockLedger.Ledger
import BlockLedger.Proofs.Tree.Rows

/-!
# What a snapshot says of the blocks

A snapshot is made of a tree and of counts, and no longer knows the blocks. What it tells about them
is said here: the counts are the numbers of blocks of each table (`TableCounts.count_ofBlocks`), the
positions are those of the blocks and stay what they are when more blocks come
(`Tree.positionOf?_of_prefix`), and where identifiers are not repeated, an identifier leads to the
leaf of its block (`Tree.find?_leaves_ofBlocks`).
-/

namespace BlockLedger

/-! ### Elements told apart -/

/-- An element of a list without repetitions of `f` is the only one with its value. -/
theorem filter_eq_singleton {α β : Type} [DecidableEq β] {f : α → β} {l : List α}
    (h : (l.map f).Nodup) {a : α} (ha : a ∈ l) : l.filter (f · = f a) = [a] := by
  induction l with
  | nil => cases ha
  | cons x xs ih =>
    rw [List.map_cons, List.nodup_cons] at h
    obtain ⟨hx, hxs⟩ := h
    rcases List.mem_cons.1 ha with rfl | ha
    · rw [List.filter_cons_of_pos (by simp), List.filter_eq_nil_iff.2]
      intro y hy hfy
      exact hx (of_decide_eq_true hfy ▸ List.mem_map_of_mem hy)
    · -- another element with this value would be a repetition
      have hne : f x ≠ f a := fun heq => hx (heq ▸ List.mem_map_of_mem ha)
      rw [List.filter_cons_of_neg (by simpa using hne), ih hxs ha]

/-! ### Counts -/

namespace TableCounts

theorem count_cons (name : String) (n : Nat) (cs : TableCounts) (table : String) :
    count ((name, n) :: cs) table = if name = table then n else count cs table := by
  rw [count, List.lookup_cons]
  by_cases h : name = table
  · rw [if_pos h, beq_iff_eq.2 h.symm]
    rfl
  · rw [if_neg h, beq_eq_false_iff_ne.2 (Ne.symm h)]
    rfl

theorem count_add (counts : TableCounts) (table other : String) :
    (counts.add table).count other = counts.count other + if table = other then 1 else 0 := by
  induction counts with
  | nil =>
    rw [add, count_cons]
    exact (Nat.zero_add _).symm
  | cons c cs ih =>
    obtain ⟨name, n⟩ := c
    rw [add]
    -- the count that is raised is the first one for its table, and this is the one looked up
    by_cases hname : name = table
    · rw [if_pos hname, count_cons, count_cons, hname]
      split <;> rfl
    · rw [if_neg hname, count_cons, count_cons, ih]
      by_cases hother : name = other
      · have hne : table ≠ other := fun heq => hname (hother.trans heq.symm)
        rw [if_pos hother, if_pos hother, if_neg hne, Nat.add_zero]
      · rw [if_neg hother, if_neg hother]

/-- Going through blocks adds the number of those with a table. -/
theorem count_foldl_add (blocks : List Block) (counts : TableCounts) (table : String) :
    (blocks.foldl (fun counts b => counts.add b.table) counts).count table
      = counts.count table + blocks.countP (·.table = table) := by
  induction blocks generalizing counts with
  | nil => rfl
  | cons b bs ih =>
    rw [List.foldl_cons, ih, count_add, List.countP_cons]
    simp only [decide_eq_true_eq]
    omega

/-- The counts of some blocks are the numbers of blocks with each table. -/
theorem count_ofBlocks (blocks : List Block) (table : String) :
    (ofBlocks blocks).count table = blocks.countP (·.table = table) := by
  rw [ofBlocks, count_foldl_add]
  exact Nat.zero_add _

end TableCounts

namespace Tree

theorem leaves_ofBlocks (blocks : List Block) :
    (ofBlocks blocks).leaves = blocks.map fun b => Leaf.of b.id b.payload := by
  rw [ofBlocks, leaves_build, List.map_map]
  rfl

theorem leafCount_ofBlocks (blocks : List Block) : (ofBlocks blocks).leafCount = blocks.length := by
  rw [leafCount, leaves_ofBlocks, List.length_map]

theorem positionOf?_ofBlocks (blocks : List Block) (id : String) :
    (ofBlocks blocks).positionOf? id = blocks.findIdx? (·.id = id) := by
  rw [positionOf?, leaves_ofBlocks, List.findIdx?_map]
  rfl

/-- More blocks behind the others leave the positions as they are. -/
theorem positionOf?_of_prefix {blocks all : List Block} (h : blocks <+: all) {id : String} {q : Nat}
    (hq : (ofBlocks blocks).positionOf? id = some q) : (ofBlocks all).positionOf? id = some q := by
  obtain ⟨more, rfl⟩ := h
  rw [positionOf?_ofBlocks] at hq ⊢
  rw [List.findIdx?_append, hq, Option.some_or]

/-- The leaf with the identifier of a block is the leaf of that block. -/
theorem find?_leaves_ofBlocks {blocks : List Block} (h : (blocks.map (·.id)).Nodup) {b : Block}
    (hb : b ∈ blocks) :
    (ofBlocks blocks).leaves.find? (·.id = b.id) = some (Leaf.of b.id b.payload) := by
  have hfind : blocks.find? (·.id = b.id) = some b := by
    rw [← List.head?_filter, filter_eq_singleton h hb, List.head?_cons]
  rw [leaves_ofBlocks, List.find?_map]
  exact Option.map_eq_some_iff.2 ⟨b, hfind, rfl⟩

end Tree

end BlockLedger
