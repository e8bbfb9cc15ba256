import BlockLedger.Proofs.Tree.Rows
import BlockLedger.Tree.Hashed

/-!
# Going down a tree

From the root every leaf is reached by a number of turns, one for each row above the leaves: to the
left, or to the right where there is something on the right. The turns to a position are the binary
digits of that position, the highest first (`turnsTo`), and `Tree.leafToward?` is the leaf they lead
to.

Each turn leads from a subtree to one of its children (`Subtree.child`). What holds of a subtree and
is handed on to children holds of everything below (`Subtree.descend_induction`): hashes that belong
to what they stand for, and what is hashed.

The subtrees of a tree have all their leaves in the lowest row (`Subtree.HasHeight`), so a way from
the root ends at a leaf after exactly as many turns as there are rows above the leaves. Along the
binary digits of a place that the tree has it passes through that place
(`Tree.descend_turnsTo`); so for a position of a leaf it leads to that leaf
(`Tree.leafToward?_eq_leaf?`).
-/

namespace BlockLedger

/-! ### Ways down -/

/-- The turns to a position through so many rows; `true` is to the right. -/
def turnsTo : Nat → Nat → List Bool
  | 0, _ => []
  | k + 1, position => position.testBit k :: turnsTo k position

theorem length_turnsTo (k position : Nat) : (turnsTo k position).length = k := by
  induction k with
  | zero => rfl
  | succ k ih => simp [turnsTo, ih]

namespace Subtree

/-- The leaf that some turns lead to. Where nothing stands on the right, a turn to the right goes to
the left. -/
def leafAlong : Subtree → List Bool → Leaf
  | .leaf _ l, _ => l
  | .lone c _, turns => c.leafAlong turns.tail
  | .pair _ r _, true :: turns => r.leafAlong turns
  | .pair l _ _, turns => l.leafAlong turns.tail

end Subtree

/-- The leaf of a tree that the binary digits of a number lead to, if there is a leaf. -/
def Tree.leafToward? (t : Tree) (position : Nat) : Option Leaf :=
  t.root?.map fun r => r.leafAlong (turnsTo (t.height - 1) position)

/-- The turns to a position are the turns to its parent and one more. -/
theorem turnsTo_succ (k q : Nat) : turnsTo (k + 1) q = turnsTo k (q / 2) ++ [q.testBit 0] := by
  induction k generalizing q with
  | zero => rfl
  | succ k ih => rw [turnsTo, ih, turnsTo, Nat.testBit_div_two, List.cons_append]

theorem testBit_zero_left (q : Nat) : (2 * q).testBit 0 = false := by
  rw [Nat.testBit_zero]
  exact decide_eq_false (by omega)

theorem testBit_zero_right (q : Nat) : (2 * q + 1).testBit 0 = true := by
  rw [Nat.testBit_zero]
  exact decide_eq_true (by omega)

namespace Subtree

/-! ### Children -/

/-- The child that a turn leads to. Where nothing stands on the right, both turns lead to the left.
-/
def child : Subtree → Bool → Option Subtree
  | .leaf _ _, _ => none
  | .lone c _, _ => some c
  | .pair l _ _, false => some l
  | .pair _ r _, true => some r

/-- The subtree that some turns lead to, unless they lead below a leaf. -/
def descend (s : Subtree) : List Bool → Option Subtree
  | [] => some s
  | b :: turns => (s.child b).bind fun c => c.descend turns

theorem descend_append (s : Subtree) (turns more : List Bool) :
    s.descend (turns ++ more) = (s.descend turns).bind fun c => c.descend more := by
  induction turns generalizing s with
  | nil => rfl
  | cons b turns ih =>
    rw [List.cons_append, descend, descend]
    cases s.child b with
    | none => rfl
    | some c => exact ih c

/-- One more turn leads to a child. -/
theorem descend_concat {s c : Subtree} {turns : List Bool} {b : Bool}
    (h : s.descend turns = some c) : s.descend (turns ++ [b]) = c.child b := by
  rw [descend_append, h, Option.bind_some, descend]
  cases c.child b <;> rfl

/-- **What is handed on to children** is handed on along all ways down. -/
theorem descend_induction {P : Subtree → Prop} (hchild : ∀ s b c, P s → s.child b = some c → P c)
    {s c : Subtree} {turns : List Bool} (hs : P s) (h : s.descend turns = some c) : P c := by
  induction turns generalizing s with
  | nil =>
    cases h
    exact hs
  | cons b turns ih =>
    obtain ⟨d, hd, hc⟩ := Option.bind_eq_some_iff.1 h
    exact ih (hchild s b d hs hd) hc

/-- A child is the only one, the left one or the right one. -/
theorem child_eq_some {s c : Subtree} {b : Bool} (h : s.child b = some c) :
    (∃ d, s = .lone c d) ∨ (∃ r d, b = false ∧ s = .pair c r d) ∨
      ∃ l d, b = true ∧ s = .pair l c d := by
  cases s with
  | leaf => cases h
  | lone c' d =>
    cases h
    exact .inl ⟨d, rfl⟩
  | pair l r d =>
    cases b with
    | false =>
      cases h
      exact .inr (.inl ⟨r, d, rfl, rfl⟩)
    | true =>
      cases h
      exact .inr (.inr ⟨l, d, rfl, rfl⟩)

theorem Sound.child {s c : Subtree} {b : Bool} (h : s.Sound) (hc : s.child b = some c) :
    c.Sound := by
  obtain ⟨d, rfl⟩ | ⟨r, d, -, rfl⟩ | ⟨l, d, -, rfl⟩ := child_eq_some hc
  · exact h.2
  · exact h.2.1
  · exact h.2.2

theorem mem_hashed_of_child {s c : Subtree} {b : Bool} (hc : s.child b = some c) {x : Bytes}
    (hx : x ∈ c.hashed) : x ∈ s.hashed := by
  obtain ⟨d, rfl⟩ | ⟨r, d, -, rfl⟩ | ⟨l, d, -, rfl⟩ := child_eq_some hc
  · exact List.mem_cons_of_mem _ hx
  · exact List.mem_cons_of_mem _ (List.mem_append_left _ hx)
  · exact List.mem_cons_of_mem _ (List.mem_append_right _ hx)

theorem mem_leaves_of_child {s c : Subtree} {b : Bool} (hc : s.child b = some c) {x : Nat × Leaf}
    (hx : x ∈ c.leaves) : x ∈ s.leaves := by
  obtain ⟨d, rfl⟩ | ⟨r, d, -, rfl⟩ | ⟨l, d, -, rfl⟩ := child_eq_some hc
  · exact hx
  · exact List.mem_append_left _ hx
  · exact List.mem_append_right _ hx

/-- Turning to a child and going on there is going on. -/
theorem leafAlong_of_child {s c : Subtree} {b : Bool} (hc : s.child b = some c)
    (turns : List Bool) : s.leafAlong (b :: turns) = c.leafAlong turns := by
  obtain ⟨d, rfl⟩ | ⟨r, d, rfl, rfl⟩ | ⟨l, d, rfl, rfl⟩ := child_eq_some hc
  · rfl
  · rfl
  · rfl

/-- A way that ends at a leaf leads to that leaf. -/
theorem leafAlong_of_descend {s c : Subtree} {turns : List Bool} (h : s.descend turns = some c)
    (more : List Bool) : s.leafAlong (turns ++ more) = c.leafAlong more := by
  induction turns generalizing s with
  | nil =>
    cases h
    rfl
  | cons b turns ih =>
    obtain ⟨d, hd, hc⟩ := Option.bind_eq_some_iff.1 h
    rw [List.cons_append, leafAlong_of_child hd, ih hc]

/-! ### Heights -/

/-- All leaves stand in the same row, so many rows below. -/
inductive HasHeight : Subtree → Nat → Prop
  | leaf (p : Nat) (l : Leaf) : HasHeight (.leaf p l) 0
  | lone {c : Subtree} {k : Nat} (hc : HasHeight c k) (h : Digest) : HasHeight (.lone c h) (k + 1)
  | pair {l r : Subtree} {k : Nat} (hl : HasHeight l k) (hr : HasHeight r k) (h : Digest) :
    HasHeight (.pair l r h) (k + 1)

theorem HasHeight.child {s c : Subtree} {k : Nat} {b : Bool} (h : s.HasHeight (k + 1))
    (hc : s.child b = some c) : c.HasHeight k := by
  obtain ⟨d, rfl⟩ | ⟨r, d, -, rfl⟩ | ⟨l, d, -, rfl⟩ := child_eq_some hc
  · cases h with
    | lone hc' => exact hc'
  · cases h with
    | pair hl hr => exact hl
  · cases h with
    | pair hl hr => exact hr

/-- A way down leads so many rows down as it has turns. -/
theorem HasHeight.descend {s c : Subtree} {n : Nat} {turns : List Bool} (h : s.HasHeight n)
    (hc : s.descend turns = some c) : ∃ k, n = k + turns.length ∧ c.HasHeight k := by
  -- each turn goes down one row, and a leaf has no child
  induction turns generalizing s n with
  | nil =>
    cases hc
    exact ⟨n, rfl, h⟩
  | cons b turns ih =>
    obtain ⟨d, hd, hc⟩ := Option.bind_eq_some_iff.1 hc
    cases n with
    | zero =>
      cases h
      cases hd
    | succ n =>
      obtain ⟨k, hk, hck⟩ := ih (h.child hd) hc
      exact ⟨k, by rw [List.length_cons, hk, Nat.add_assoc], hck⟩

end Subtree

namespace Tree

variable {t : Tree}

/-! ### The subtrees of a tree -/

theorem sound_at? {k q : Nat} {s : Subtree} (h : t.at? k q = some s) : s.Sound := by
  induction k generalizing q s with
  | zero =>
    rw [at?_zero] at h
    obtain ⟨leaf, -, rfl⟩ := Option.map_eq_some_iff.1 h
    exact trivial
  | succ k ih =>
    rcases at?_succ_eq_some h with ⟨c, hc, -, rfl⟩ | ⟨l, r, hl, hr, rfl⟩
    · exact (ih hc).wrap
    · exact (ih hl).join (ih hr)

theorem hasHeight_at? {k q : Nat} {s : Subtree} (h : t.at? k q = some s) : s.HasHeight k := by
  induction k generalizing q s with
  | zero =>
    rw [at?_zero] at h
    obtain ⟨leaf, -, rfl⟩ := Option.map_eq_some_iff.1 h
    exact .leaf q leaf
  | succ k ih =>
    rcases at?_succ_eq_some h with ⟨c, hc, -, rfl⟩ | ⟨l, r, hl, hr, rfl⟩
    · exact .lone (ih hc) _
    · exact .pair (ih hl) (ih hr) _

/-- The leaves under a subtree are leaves of the tree, at their positions. -/
theorem leaf?_of_mem_leaves {k q : Nat} {s : Subtree} (h : t.at? k q = some s) {x : Nat × Leaf}
    (hx : x ∈ s.leaves) : t.leaf? x.1 = some x.2 := by
  induction k generalizing q s with
  | zero =>
    rw [at?_zero] at h
    obtain ⟨leaf, hleaf, rfl⟩ := Option.map_eq_some_iff.1 h
    rw [Subtree.leaves, List.mem_singleton] at hx
    rw [hx]
    exact hleaf
  | succ k ih =>
    rcases at?_succ_eq_some h with ⟨c, hc, -, rfl⟩ | ⟨l, r, hl, hr, rfl⟩
    · exact ih hc hx
    · rcases List.mem_append.1 hx with hx | hx
      · exact ih hl hx
      · exact ih hr hx

/-! ### Ways from the root -/

theorem height_pos_of_root? {r : Subtree} (h : t.root? = some r) : 0 < t.height := by
  by_contra hzero
  have hnil : t.rows = [] := List.length_eq_zero_iff.1 (Nat.eq_zero_of_not_pos hzero)
  rw [root?, hnil] at h
  cases h

theorem at?_of_root? {r : Subtree} (h : t.root? = some r) : t.at? (t.height - 1) 0 = some r := by
  rw [← root?_eq_at? (height_pos_of_root? h), h]

theorem hashed_of_root? {r : Subtree} (h : t.root? = some r) : t.hashed = r.hashed := by
  rw [hashed, h, Option.map_some, Option.getD_some]

/-- The leaf at the end of a way from the root is a leaf of the tree, at its position. -/
theorem leaf?_of_descend {r : Subtree} (hr : t.root? = some r) {turns : List Bool} {q : Nat}
    {leaf : Leaf} (hway : r.descend turns = some (.leaf q leaf)) : t.leaf? q = some leaf := by
  have hmem : (q, leaf) ∈ r.leaves := by
    refine Subtree.descend_induction (P := fun s => ∀ x ∈ s.leaves, x ∈ r.leaves)
      (fun s b c hs hc x hx => hs x (Subtree.mem_leaves_of_child hc hx)) (fun x hx => hx) hway _ ?_
    exact List.mem_singleton_self _
  exact leaf?_of_mem_leaves (at?_of_root? hr) hmem

/-- **The way along the digits of a place** leads to that place. -/
theorem descend_turnsTo {r : Subtree} (hr : t.root? = some r) {d k q : Nat}
    (hd : d + (k + 1) = t.height) (hq : q < t.width k) : r.descend (turnsTo d q) = t.at? k q := by
  induction d generalizing k q with
  | zero =>
    obtain rfl : k = t.height - 1 := by omega
    rw [width_last (height_pos_of_root? hr)] at hq
    rw [Nat.lt_one_iff.1 hq, at?_of_root? hr]
    rfl
  | succ d ih =>
    have hk : k + 1 < t.height := by omega
    have hparent : q / 2 < t.width (k + 1) := by
      rw [width_succ hk]
      omega
    obtain ⟨s, hs⟩ := exists_at? hparent
    -- the digits before the last one lead to the place above
    have hway : r.descend (turnsTo d (q / 2)) = some s := by
      rw [ih (k := k + 1) (by omega) hparent, hs]
    rw [turnsTo_succ, Subtree.descend_concat hway]
    rcases at?_succ_eq_some hs with ⟨c, hc, hw, rfl⟩ | ⟨l, r', hl, hr', rfl⟩
    · -- the row below ends with the child, so the place is the one on the left
      have hq' : q = 2 * (q / 2) := by omega
      rw [← hq'] at hc
      exact hc.symm
    · rcases eq_left_or_eq_right q with hq' | hq'
      · rw [← hq'] at hl
        rw [hl, hq', testBit_zero_left]
        rfl
      · rw [← hq'] at hr'
        rw [hr', hq', testBit_zero_right]
        rfl

/-- **The way to the position of a leaf** leads to that leaf. -/
theorem leafToward?_eq_leaf? {q : Nat} (h : q < t.leafCount) : t.leafToward? q = t.leaf? q := by
  have hne : t.leaves ≠ [] := List.ne_nil_of_length_pos (Nat.zero_lt_of_lt h)
  have hheight := height_pos hne
  -- the root stands in the last row, and the way to the leaf starts there
  have hwidth : 0 < t.width (t.height - 1) := by
    rw [width_last hheight]
    exact Nat.one_pos
  obtain ⟨r, hr⟩ := exists_at? hwidth
  rw [← root?_eq_at? hheight] at hr
  have hway := descend_turnsTo hr (d := t.height - 1) (k := 0) (by omega) (by rwa [width_zero])
  have hleaf : t.leaves[q]? = some t.leaves[q] := List.getElem?_eq_getElem h
  rw [at?_zero, hleaf, Option.map_some] at hway
  have halong := Subtree.leafAlong_of_descend hway []
  rw [List.append_nil] at halong
  rw [leafToward?, hr, Option.map_some, halong, leaf?, hleaf]
  rfl

end Tree

end BlockLedger
