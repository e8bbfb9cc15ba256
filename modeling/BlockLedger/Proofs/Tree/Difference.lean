import BlockLedger.Difference
import BlockLedger.Proofs.Tree.Binding
import Mathlib.Data.List.Nodup

/-!
# Which leaves a difference reports

The comparison of two trees of one height only ever meets subtrees at the same place of both trees.
It goes on below a place as long as the hashes there are different, so it comes to the leaf at a
position iff over that position no row has the same hash in both trees (`Tree.reports_local_iff`).
This needs no assumption on the digests, and the comparison of two trees the other way round reports
the same leaves on the other sides (`Tree.reports_swap`).

If there is no clash, equal hashes over a position mean equal payloads below
(`Tree.leafToward?_of_hashAt?_eq`), and so nothing is lost at positions that both trees have
(`Tree.difference_common`). A leaf behind the end of the other tree is lost exactly if the other
tree has a subtree over its position that reads the same with the copies it makes (`Tree.Covers`,
`Tree.difference_surplus`). Between trees of different heights no two hashes are the same, and all
leaves are reported (`Subtree.difference_of_height_ne`, `Tree.difference_reports_all`).
-/

namespace BlockLedger

/-- A leaf at the position is reported on the side. -/
def Difference.Reports (d : Difference) (side : Side) (position : Nat) : Prop :=
  ∃ e ∈ d.entries, e.side = side ∧ e.position = position

namespace Subtree

/-! ### One step of the comparison -/

theorem difference_of_hash_eq {a b : Subtree} (h : a.hash = b.hash) :
    a.difference b = ([], []) := by
  cases a <;> cases b <;> exact if_pos h

theorem difference_leaf_left {p : Nat} {l : Leaf} {b : Subtree} (h : (leaf p l).hash ≠ b.hash) :
    (leaf p l).difference b = ((leaf p l).leaves, b.leaves) := by
  cases b <;> exact if_neg h

theorem difference_leaf_right {a : Subtree} {p : Nat} {l : Leaf} (h : a.hash ≠ (leaf p l).hash) :
    a.difference (leaf p l) = (a.leaves, (leaf p l).leaves) := by
  cases a <;> exact if_neg h

theorem difference_lone_lone {a b : Subtree} {d e : Digest}
    (h : (lone a d).hash ≠ (lone b e).hash) :
    (lone a d).difference (lone b e) = a.difference b := if_neg h

theorem difference_lone_pair {a b₁ b₂ : Subtree} {d e : Digest}
    (h : (lone a d).hash ≠ (pair b₁ b₂ e).hash) :
    (lone a d).difference (pair b₁ b₂ e) = (a.difference b₁).append ([], b₂.leaves) := if_neg h

theorem difference_pair_lone {a₁ a₂ b : Subtree} {d e : Digest}
    (h : (pair a₁ a₂ d).hash ≠ (lone b e).hash) :
    (pair a₁ a₂ d).difference (lone b e) = (a₁.difference b).append (a₂.leaves, []) := if_neg h

theorem difference_pair_pair {a₁ a₂ b₁ b₂ : Subtree} {d e : Digest}
    (h : (pair a₁ a₂ d).hash ≠ (pair b₁ b₂ e).hash) :
    (pair a₁ a₂ d).difference (pair b₁ b₂ e) =
      (a₁.difference b₁).append (a₂.difference b₂) := if_neg h

/-- Compared the other way round, two subtrees differ in the same leaves. -/
theorem difference_swap (a b : Subtree) : b.difference a = (a.difference b).swap := by
  have heq : ∀ {a b : Subtree}, a.hash = b.hash → b.difference a = (a.difference b).swap := by
    intro a b h
    rw [difference_of_hash_eq h, difference_of_hash_eq h.symm]
    rfl
  -- where the hashes are different, both comparisons take the same step
  induction a generalizing b with
  | leaf p l =>
    rcases eq_or_ne (leaf p l).hash b.hash with h | h
    · exact heq h
    · rw [difference_leaf_left h, difference_leaf_right h.symm]
      rfl
  | lone c d ih =>
    rcases eq_or_ne (lone c d).hash b.hash with h | h
    · exact heq h
    · cases b with
      | leaf q l =>
        rw [difference_leaf_right h, difference_leaf_left h.symm]
        rfl
      | lone c' e => rw [difference_lone_lone h, difference_lone_lone h.symm, ih]
      | pair l' r' e =>
        rw [difference_lone_pair h, difference_pair_lone h.symm, ih]
        rfl
  | pair l r d ihl ihr =>
    rcases eq_or_ne (pair l r d).hash b.hash with h | h
    · exact heq h
    · cases b with
      | leaf q l =>
        rw [difference_leaf_right h, difference_leaf_left h.symm]
        rfl
      | lone c' e =>
        rw [difference_pair_lone h, difference_lone_pair h.symm, ihl]
        rfl
      | pair l' r' e =>
        rw [difference_pair_pair h, difference_pair_pair h.symm, ihl, ihr]
        rfl

/-- **Subtrees of different heights** have different hashes all the way down, unless there is a
clash, and so they differ in all leaves. -/
theorem difference_of_height_ne {inputs : List Bytes} (hno : ¬ Clash inputs) {a b : Subtree}
    {i j : Nat} (ha : a.MadeOf inputs i) (hb : b.MadeOf inputs j) (hne : i ≠ j) :
    a.difference b = (a.leaves, b.leaves) := by
  induction i generalizing a b j with
  | zero =>
    have hhash : a.hash ≠ b.hash := fun h => hne (leafAlong_of_hash_eq hno ha hb h).1
    cases ha.height with
    | leaf p l => exact difference_leaf_left hhash
  | succ i ih =>
    have hhash : a.hash ≠ b.hash := fun h => hne (leafAlong_of_hash_eq hno ha hb h).1
    cases j with
    | zero =>
      cases hb.height with
      | leaf q l => exact difference_leaf_right hhash
    | succ j =>
      -- the children on the left have different heights again, and what stands on the right of one
      -- side is reported as it is
      have hij : i ≠ j := fun h => hne (congrArg (· + 1) h)
      have ha' := ha.height
      have hb' := hb.height
      cases ha' with
      | @lone c _ hc d =>
        cases hb' with
        | @lone c' _ hc' e =>
          rw [difference_lone_lone hhash, ih ha.of_lone hb.of_lone hij]
          rfl
        | @pair l' r' _ hl' hr' e =>
          rw [difference_lone_pair hhash, ih ha.of_lone hb.of_left hij]
          exact Prod.ext (List.append_nil _) rfl
      | @pair l r _ hl hr d =>
        cases hb' with
        | @lone c' _ hc' e =>
          rw [difference_pair_lone hhash, ih ha.of_left hb.of_lone hij]
          exact Prod.ext rfl (List.append_nil _)
        | @pair l' r' _ hl' hr' e =>
          rw [difference_pair_pair hhash, ih ha.of_left hb.of_left hij,
            ih ha.of_right hb.of_right hij]
          rfl

end Subtree

namespace Tree

variable {t u : Tree}

/-! ### Positions under a place -/

/-- What lies under a place of a row lies under a place of each row above it. -/
theorem div_lt_width_of_le {p j k : Nat} (hj : p / 2 ^ j < t.width j) (hjk : j ≤ k)
    (hk : k < t.height) : p / 2 ^ k < t.width k := by
  induction k, hjk using Nat.le_induction with
  | base => exact hj
  | succ k hjk ih =>
    have hlt : p / 2 ^ k < t.width k := ih (Nat.lt_of_succ_lt hk)
    rw [width_succ hk, Nat.pow_succ, ← Nat.div_div_eq_div_mul]
    omega

theorem div_lt_width {p k : Nat} (hp : p < t.leafCount) (hk : k < t.height) :
    p / 2 ^ k < t.width k := by
  refine div_lt_width_of_le (j := 0) ?_ (Nat.zero_le k) hk
  rwa [Nat.pow_zero, Nat.div_one, width_zero]

/-- All positions lie under the root. -/
theorem div_two_pow_height {p : Nat} (hp : p < t.leafCount) : p / 2 ^ (t.height - 1) = 0 := by
  have hpos := height_pos (List.ne_nil_of_length_pos (Nat.zero_lt_of_lt hp))
  have hlt := div_lt_width hp (Nat.sub_lt hpos Nat.one_pos)
  rw [width_last hpos] at hlt
  exact Nat.lt_one_iff.1 hlt

/-- **The leaves under a place** are those whose positions have its digits in front. -/
theorem mem_leaves_at?_iff {k q : Nat} {s : Subtree} (h : t.at? k q = some s) {x : Nat × Leaf} :
    x ∈ s.leaves ↔ t.leaf? x.1 = some x.2 ∧ x.1 / 2 ^ k = q := by
  induction k generalizing q s with
  | zero =>
    rw [at?_zero] at h
    obtain ⟨leaf, hleaf, rfl⟩ := Option.map_eq_some_iff.1 h
    rw [Subtree.leaves, List.mem_singleton, Nat.pow_zero, Nat.div_one]
    refine ⟨?_, ?_⟩
    · rintro rfl
      exact ⟨hleaf, rfl⟩
    · rintro ⟨hx, hq⟩
      rw [hq, leaf?, hleaf, Option.some.injEq] at hx
      exact Prod.ext hq hx.symm
  | succ k ih =>
    have hdiv : x.1 / 2 ^ (k + 1) = x.1 / 2 ^ k / 2 := by
      rw [Nat.pow_succ, Nat.div_div_eq_div_mul]
    rw [hdiv]
    rcases at?_succ_eq_some h with ⟨c, hc, hw, rfl⟩ | ⟨l, r, hl, hr, rfl⟩
    · refine (ih hc).trans ?_
      refine ⟨?_, ?_⟩
      · rintro ⟨hx, hq⟩
        exact ⟨hx, by omega⟩
      · rintro ⟨hx, hq⟩
        -- the row ends with the child, so no position lies to the right of it
        have hlt : x.1 / 2 ^ k < t.width k :=
          div_lt_width (List.getElem?_eq_some_iff.1 hx).1 (lt_height_of_at? hc)
        exact ⟨hx, by omega⟩
    · have hmem : x ∈ (l.join r).leaves ↔ x ∈ l.leaves ∨ x ∈ r.leaves := List.mem_append
      rw [hmem, ih hl, ih hr]
      refine ⟨?_, ?_⟩
      · rintro (⟨hx, hq⟩ | ⟨hx, hq⟩)
        · exact ⟨hx, by omega⟩
        · exact ⟨hx, by omega⟩
      · rintro ⟨hx, hq⟩
        rcases eq_left_or_eq_right (x.1 / 2 ^ k) with h' | h'
        · exact .inl ⟨hx, by omega⟩
        · exact .inr ⟨hx, by omega⟩

/-! ### Hashes over a position -/

/-- The hash of the subtree of a row under which a position lies. -/
def hashOver? (t : Tree) (k position : Nat) : Option Digest := t.hashAt? k (position / 2 ^ k)

theorem hashOver?_of_at? {k q p : Nat} {s : Subtree} (h : t.at? k q = some s) (hp : p / 2 ^ k = q) :
    t.hashOver? k p = some s.hash := by
  rw [hashOver?, hp, hashAt?, h, Option.map_some]

theorem isSome_hashOver?_iff {k p : Nat} : (t.hashOver? k p).isSome ↔ p / 2 ^ k < t.width k :=
  t.isSome_hashAt?_iff

/-- Where one tree has something over a position and the other one does not, the hashes differ. -/
theorem hashOver?_ne_of_le {k p : Nat} (hp : p < t.leafCount) (hk : k < t.height)
    (hle : u.width k ≤ p / 2 ^ k) : t.hashOver? k p ≠ u.hashOver? k p := by
  intro h
  have hsome : (t.hashOver? k p).isSome := isSome_hashOver?_iff.2 (div_lt_width hp hk)
  rw [h, isSome_hashOver?_iff] at hsome
  exact absurd hsome (Nat.not_lt.2 hle)

/-! ### Trees of one height -/

/-- The hashes at a place are those over the positions under it. -/
theorem hashOver?_eq_iff_at? {k q : Nat} {a b : Subtree} (ha : t.at? k q = some a)
    (hb : u.at? k q = some b) {x : Nat × Leaf} (hx : x ∈ a.leaves) :
    t.hashOver? k x.1 = u.hashOver? k x.1 ↔ a.hash = b.hash := by
  have hq := ((mem_leaves_at?_iff ha).1 hx).2
  rw [hashOver?_of_at? ha hq, hashOver?_of_at? hb hq, Option.some.injEq]

/-- **Below a place of both trees** a leaf differs iff its position has different hashes over it in
all rows down from there. -/
theorem mem_difference_iff {k q : Nat} {a b : Subtree} (ha : t.at? k q = some a)
    (hb : u.at? k q = some b) {x : Nat × Leaf} :
    x ∈ (a.difference b).1 ↔ x ∈ a.leaves ∧ ∀ j ≤ k, t.hashOver? j x.1 ≠ u.hashOver? j x.1 := by
  rcases eq_or_ne a.hash b.hash with heq | hne
  · -- the comparison ends here, and the row of the place has the same hash over all positions
    rw [Subtree.difference_of_hash_eq heq]
    refine ⟨fun hx => absurd hx List.not_mem_nil, ?_⟩
    rintro ⟨hx, hall⟩
    exact absurd ((hashOver?_eq_iff_at? ha hb hx).2 heq) (hall k (Nat.le_refl k))
  cases k with
  | zero =>
    have hleaves : (a.difference b).1 = a.leaves := by
      rw [at?_zero] at ha
      obtain ⟨l, -, rfl⟩ := Option.map_eq_some_iff.1 ha
      rw [Subtree.difference_leaf_left hne]
    rw [hleaves]
    refine ⟨fun hx => ⟨hx, fun j hj => ?_⟩, fun h => h.1⟩
    rw [Nat.le_zero.1 hj]
    exact mt (hashOver?_eq_iff_at? ha hb hx).1 hne
  | succ k =>
    -- the row of the place has different hashes, so it remains to look at the rows below
    have hrows : x ∈ a.leaves → ((∀ j ≤ k + 1, t.hashOver? j x.1 ≠ u.hashOver? j x.1) ↔
        ∀ j ≤ k, t.hashOver? j x.1 ≠ u.hashOver? j x.1) := by
      intro hx
      refine ⟨fun h j hj => h j (Nat.le_succ_of_le hj), fun h j hj => ?_⟩
      rcases Nat.le_succ_iff.1 hj with hj | rfl
      · exact h j hj
      · exact mt (hashOver?_eq_iff_at? ha hb hx).1 hne
    rw [and_congr_right hrows]
    rcases at?_succ_eq_some ha with ⟨c, hc, -, rfl⟩ | ⟨l, r, hl, hr, rfl⟩
    · rcases at?_succ_eq_some hb with ⟨c', hc', -, rfl⟩ | ⟨l', r', hl', hr', rfl⟩
      · rw [show c.wrap.difference c'.wrap = c.difference c' from
          Subtree.difference_lone_lone hne]
        exact mem_difference_iff hc hc'
      · rw [show c.wrap.difference (l'.join r') = (c.difference l').append ([], r'.leaves) from
          Subtree.difference_lone_pair hne]
        exact (List.mem_append.trans (or_iff_left List.not_mem_nil)).trans
          (mem_difference_iff hc hl')
    · have hleaves : x ∈ (l.join r).leaves ↔ x ∈ l.leaves ∨ x ∈ r.leaves := List.mem_append
      rw [hleaves, or_and_right]
      rcases at?_succ_eq_some hb with ⟨c', hc', hw', rfl⟩ | ⟨l', r', hl', hr', rfl⟩
      · rw [show (l.join r).difference c'.wrap = (l.difference c').append (r.leaves, []) from
          Subtree.difference_pair_lone hne]
        refine List.mem_append.trans (or_congr (mem_difference_iff hl hc') ?_)
        -- nothing of the other tree lies over the positions on the right
        refine ⟨fun hx => ⟨hx, fun j hj => ?_⟩, fun h => h.1⟩
        obtain ⟨hleaf, hq⟩ := (mem_leaves_at?_iff hr).1 hx
        have hk := lt_height_of_at? hr
        have hp := (List.getElem?_eq_some_iff.1 hleaf).1
        refine hashOver?_ne_of_le hp (Nat.lt_of_le_of_lt hj hk) ?_
        by_contra hlt
        have hover := div_lt_width_of_le (Nat.not_le.1 hlt) hj (lt_height_of_at? hc')
        omega
      · rw [show (l.join r).difference (l'.join r') =
            (l.difference l').append (r.difference r') from Subtree.difference_pair_pair hne]
        exact List.mem_append.trans
          (or_congr (mem_difference_iff hl hl') (mem_difference_iff hr hr'))

/-! ### Reported positions -/

theorem mem_map_of_iff {side : Side} {xs : List (Nat × Leaf)} {other : Side} {p : Nat} :
    (∃ e ∈ xs.map (DifferingLeaf.of side), e.side = other ∧ e.position = p) ↔
      side = other ∧ ∃ x ∈ xs, x.1 = p := by
  refine ⟨?_, ?_⟩
  · rintro ⟨e, he, rfl, rfl⟩
    obtain ⟨x, hx, rfl⟩ := List.mem_map.1 he
    exact ⟨rfl, x, hx, rfl⟩
  · rintro ⟨rfl, x, hx, rfl⟩
    exact ⟨_, List.mem_map_of_mem hx, rfl, rfl⟩

theorem reports_local {p : Nat} :
    (t.difference u).Reports .local p ↔ ∃ x ∈ (t.differingLeaves u).1, x.1 = p := by
  simp only [Difference.Reports, difference, List.mem_append, or_and_right, exists_or,
    mem_map_of_iff, reduceCtorEq, true_and, false_and, or_false]

theorem reports_remote {p : Nat} :
    (t.difference u).Reports .remote p ↔ ∃ x ∈ (t.differingLeaves u).2, x.1 = p := by
  simp only [Difference.Reports, difference, List.mem_append, or_and_right, exists_or,
    mem_map_of_iff, reduceCtorEq, true_and, false_and, false_or]

theorem differingLeaves_swap (t u : Tree) : u.differingLeaves t = (t.differingLeaves u).swap := by
  rw [differingLeaves, differingLeaves]
  cases t.root? with
  | none => cases u.root? <;> rfl
  | some a =>
    cases u.root? with
    | none => rfl
    | some b => exact Subtree.difference_swap a b

/-- **Compared the other way round**, two trees differ in the same leaves. -/
theorem reports_swap {p : Nat} :
    (u.difference t).Reports .local p ↔ (t.difference u).Reports .remote p := by
  rw [reports_local, reports_remote, differingLeaves_swap t u]
  rfl

/-- **A leaf is reported** between trees of one height iff no row has the same hash over its
position in both trees. -/
theorem reports_local_iff (hheight : t.height = u.height) {p : Nat} :
    (t.difference u).Reports .local p ↔
      p < t.leafCount ∧ ∀ k < t.height, t.hashOver? k p ≠ u.hashOver? k p := by
  rw [reports_local]
  by_cases hleaves : t.leaves = []
  · -- two trees without leaves
    have ht : t.root? = none := by rw [root?, rows_of_no_leaves hleaves]; rfl
    have hu : u.root? = none := by
      have hrows : u.rows = [] := by
        rw [← List.length_eq_zero_iff, ← height, ← hheight, height, rows_of_no_leaves hleaves]
        rfl
      rw [root?, hrows]
      rfl
    rw [differingLeaves, ht, hu, leafCount, hleaves]
    refine ⟨?_, fun h => absurd h.1 (Nat.not_lt_zero p)⟩
    rintro ⟨x, hx, -⟩
    exact absurd hx List.not_mem_nil
  · have hpos := height_pos hleaves
    obtain ⟨a, ha⟩ := exists_root? hpos
    obtain ⟨b, hb⟩ := exists_root? (hheight ▸ hpos)
    have hat := at?_of_root? ha
    have hbt := at?_of_root? hb
    rw [← hheight] at hbt
    rw [differingLeaves, ha, hb]
    have hrows : ∀ {p : Nat}, (∀ j ≤ t.height - 1, t.hashOver? j p ≠ u.hashOver? j p) ↔
        ∀ k < t.height, t.hashOver? k p ≠ u.hashOver? k p := by
      intro p
      exact ⟨fun h k hk => h k (by omega), fun h k hk => h k (by omega)⟩
    refine ⟨?_, ?_⟩
    · rintro ⟨x, hx, rfl⟩
      obtain ⟨hmem, hall⟩ := (mem_difference_iff hat hbt).1 hx
      exact ⟨(List.getElem?_eq_some_iff.1 ((mem_leaves_at?_iff hat).1 hmem).1).1, hrows.1 hall⟩
    · rintro ⟨hp, hall⟩
      refine ⟨(p, t.leaves[p]), (mem_difference_iff hat hbt).2 ⟨?_, hrows.2 hall⟩, rfl⟩
      exact (mem_leaves_at?_iff hat).2 ⟨List.getElem?_eq_getElem hp, div_two_pow_height hp⟩

theorem reports_remote_iff (hheight : t.height = u.height) {p : Nat} :
    (t.difference u).Reports .remote p ↔
      p < u.leafCount ∧ ∀ k < t.height, t.hashOver? k p ≠ u.hashOver? k p := by
  rw [← reports_swap, reports_local_iff hheight.symm, hheight]
  exact and_congr_right fun _ => forall₂_congr fun _ _ => ne_comm

/-! ### Payloads -/

/-- Over a position of both trees equal hashes mean equal payloads, unless there is a clash. -/
theorem payload_eq_of_hashOver?_eq (hno : ¬ Clash (t.hashed ++ u.hashed)) {k p : Nat}
    (hp : p < t.leafCount) (hp' : p < u.leafCount) (hk : k < t.height)
    (h : t.hashOver? k p = u.hashOver? k p) :
    (t.leaf? p).map Leaf.payload = (u.leaf? p).map Leaf.payload := by
  have hpayload := leafToward?_of_hashAt?_eq hno (div_lt_width hp hk) h rfl
  rwa [leafToward?_eq_leaf? hp, leafToward?_eq_leaf? hp'] at hpayload

/-- Leaves with the same payload have the same hash. -/
theorem hash_eq_of_payload_eq {a b : Option Leaf} (h : a.map Leaf.payload = b.map Leaf.payload) :
    a.map Leaf.hash = b.map Leaf.hash := by
  have hhash : ∀ a : Option Leaf, a.map Leaf.hash = (a.map Leaf.payload).map Digest.ofPayload := by
    intro a
    rw [Option.map_map]
    exact congrArg (a.map ·) (funext fun l => l.hash_eq)
  rw [hhash, hhash, h]

/-- **At a position of both trees**, which have one height, the local leaf is reported iff the
remote one is, and then their hashes are different. If the hashes, or the payloads, are different
the leaves are reported, unless two different byte strings hashed for the trees have one digest. -/
theorem difference_common (hheight : t.height = u.height) {p : Nat} (hp : p < t.leafCount)
    (hp' : p < u.leafCount) :
    ((t.difference u).Reports .local p ↔ (t.difference u).Reports .remote p) ∧
      ((t.difference u).Reports .local p →
        (t.leaf? p).map Leaf.hash ≠ (u.leaf? p).map Leaf.hash) ∧
      (Clash (t.hashed ++ u.hashed) ∨
        (((t.leaf? p).map Leaf.hash ≠ (u.leaf? p).map Leaf.hash →
            (t.difference u).Reports .local p) ∧
          ((t.leaf? p).map Leaf.payload ≠ (u.leaf? p).map Leaf.payload →
            (t.difference u).Reports .local p))) := by
  refine ⟨?_, fun h => ?_, ?_⟩
  · rw [reports_local_iff hheight, reports_remote_iff hheight]
    exact and_congr_left fun _ => iff_of_true hp hp'
  · -- the leaves are the lowest of the rows over the position
    have hrow := ((reports_local_iff hheight).1 h).2 0 (height_pos (List.ne_nil_of_length_pos
      (Nat.zero_lt_of_lt hp)))
    rw [hashOver?, hashOver?, Nat.pow_zero, Nat.div_one, hashAt?_zero, hashAt?_zero] at hrow
    exact hrow
  · by_cases hclash : Clash (t.hashed ++ u.hashed)
    · exact .inl hclash
    · have hreport : (t.leaf? p).map Leaf.payload ≠ (u.leaf? p).map Leaf.payload →
          (t.difference u).Reports .local p := by
        intro hne
        refine (reports_local_iff hheight).2 ⟨hp, fun k hk h => hne ?_⟩
        exact payload_eq_of_hashOver?_eq hclash hp hp' hk h
      exact .inr ⟨fun hne => hreport (mt hash_eq_of_payload_eq hne), hreport⟩

/-- A changed leaf, between a tree of three leaves and one of four. -/
theorem difference_common_changed :
    let t := Tree.build [("a", [1]), ("b", [2]), ("c", [3])]
    let u := Tree.build [("a", [1]), ("b", [9]), ("c", [3]), ("d", [4])]
    t.height = u.height ∧ 1 < t.leafCount ∧ 1 < u.leafCount ∧
      (Clash (t.hashed ++ u.hashed) ∨ (t.difference u).Reports .local 1) := by
  intro t u
  have hheight : t.height = u.height := by
    simp [t, u, height, build, ofLeaves, rowsOver, rowsFrom, leafRow, rowAbove, pairUp]
  have hpayload : (t.leaf? 1).map Leaf.payload ≠ (u.leaf? 1).map Leaf.payload := by decide
  have hcommon := difference_common hheight (p := 1) (by decide) (by decide)
  exact ⟨hheight, by decide, by decide, hcommon.2.2.imp id fun h => h.2 hpayload⟩

/-! ### Leaves without a counterpart -/

/-- The first tree has a subtree over a position that leads to the same payloads as the second
tree's subtree there, the copies included that stand at the ends of odd rows. -/
def Covers (t u : Tree) (p : Nat) : Prop :=
  t.height = u.height ∧ ∃ k < t.height, p / 2 ^ k < t.width k ∧
    ∀ i, i / 2 ^ k = p / 2 ^ k →
      (t.leafToward? i).map Leaf.payload = (u.leafToward? i).map Leaf.payload

/-- A tree covers a leaf of another one iff some row has the same hash over its position in both
trees, unless there is a clash. -/
theorem covers_iff (hno : ¬ Clash (t.hashed ++ u.hashed)) (hheight : t.height = u.height) {p : Nat}
    (hp : p < u.leafCount) :
    t.Covers u p ↔ ∃ k < t.height, t.hashOver? k p = u.hashOver? k p := by
  refine ⟨?_, ?_⟩
  · rintro ⟨-, k, hk, hlt, hsame⟩
    exact ⟨k, hk, hashAt?_eq_of_leafToward? hlt (div_lt_width hp (hheight ▸ hk)) hsame⟩
  · rintro ⟨k, hk, heq⟩
    -- the second tree has a hash there, and so the first one has it, too
    have hlt : p / 2 ^ k < t.width k := by
      rw [← isSome_hashOver?_iff, heq, isSome_hashOver?_iff]
      exact div_lt_width hp (hheight ▸ hk)
    exact ⟨hheight, k, hk, hlt, fun i hi => leafToward?_of_hashAt?_eq hno hlt heq hi⟩

/-- Between trees of different heights all leaves are reported, unless there is a clash. -/
theorem reports_of_height_ne (hno : ¬ Clash (t.hashed ++ u.hashed)) (hne : t.height ≠ u.height)
    {p : Nat} (hp : p < t.leafCount) : (t.difference u).Reports .local p := by
  have hpos := height_pos (List.ne_nil_of_length_pos (Nat.zero_lt_of_lt hp))
  obtain ⟨a, ha⟩ := exists_root? hpos
  have hmem : (p, t.leaves[p]) ∈ a.leaves := by
    refine (mem_leaves_at?_iff (at?_of_root? ha)).2 ⟨List.getElem?_eq_getElem hp, ?_⟩
    exact div_two_pow_height hp
  rw [reports_local, differingLeaves, ha]
  cases hb : u.root? with
  | none => exact ⟨_, hmem, rfl⟩
  | some b =>
    have hpos' := height_pos_of_root? hb
    have hall := Subtree.difference_of_height_ne hno (madeOf_left (at?_of_root? ha))
      (madeOf_right (at?_of_root? hb)) (by omega)
    change ∃ x ∈ (a.difference b).1, x.1 = p
    rw [hall]
    exact ⟨_, hmem, rfl⟩

theorem reports_remote_of_height_ne (hno : ¬ Clash (t.hashed ++ u.hashed))
    (hne : t.height ≠ u.height) {p : Nat} (hp : p < u.leafCount) :
    (t.difference u).Reports .remote p := by
  have hno' : ¬ Clash (u.hashed ++ t.hashed) := fun h => hno (h.mono fun x hx => by
    rw [List.mem_append] at hx ⊢
    exact hx.symm)
  rw [← reports_swap]
  exact reports_of_height_ne hno' (Ne.symm hne) hp

/-- **A leaf of one tree is reported** iff the other tree does not cover it, on whichever side the
trees are, unless two different byte strings hashed for the trees have one digest. This is so in
particular behind the end of the other tree, where a leaf has no counterpart but the copies that
cover it. -/
theorem difference_surplus {p : Nat} (hp : p < u.leafCount) :
    Clash (t.hashed ++ u.hashed) ∨
      (((t.difference u).Reports .remote p ↔ ¬ t.Covers u p) ∧
        ((u.difference t).Reports .local p ↔ ¬ t.Covers u p)) := by
  by_cases hclash : Clash (t.hashed ++ u.hashed)
  · exact .inl hclash
  refine .inr ?_
  rw [reports_swap, and_self]
  by_cases hheight : t.height = u.height
  · rw [reports_remote_iff hheight, covers_iff hclash hheight hp]
    push Not
    exact and_iff_right hp
  · exact iff_of_true (reports_remote_of_height_ne hclash hheight hp) fun h => hheight h.1

/-- What is hashed for three leaves, and for these with a fourth one that has another payload. -/
def hashedForFour : List Bytes :=
  let first := Digest.ofPair (.ofPayload [1]) (.ofPayload [2])
  [Digest.payloadInput [1], Digest.payloadInput [2], Digest.payloadInput [3],
    Digest.payloadInput [4], Digest.pairInput (.ofPayload [1]) (.ofPayload [2]),
    Digest.pairInput (.ofPayload [3]) (.ofPayload [3]),
    Digest.pairInput (.ofPayload [3]) (.ofPayload [4]),
    Digest.pairInput first (.ofPair (.ofPayload [3]) (.ofPayload [3])),
    Digest.pairInput first (.ofPair (.ofPayload [3]) (.ofPayload [4]))]

/-- These nine byte strings have nine digests. -/
theorem not_clash_of_forall_mem {inputs : List Bytes} (h : ∀ x ∈ inputs, x ∈ hashedForFour) :
    ¬ Clash inputs := by
  have hdigests : (hashedForFour.map Digest.hash).Nodup := by decide +kernel
  rintro ⟨x, hx, y, hy, hne, heq⟩
  exact hne (List.inj_on_of_nodup_map hdigests (h x hx) (h y hy) heq)

/-- The fourth leaf of a tree is reported against a tree of three leaves. The third of these stands
in for a fourth one there, and it has another payload. -/
theorem difference_surplus_fourth :
    let t := Tree.build [("a", [1]), ("b", [2]), ("c", [3])]
    let u := Tree.build [("a", [1]), ("b", [2]), ("c", [3]), ("d", [4])]
    3 < u.leafCount ∧ ¬ Clash (t.hashed ++ u.hashed) ∧ ¬ t.Covers u 3 ∧
      (t.difference u).Reports .remote 3 ∧ (u.difference t).Reports .local 3 := by
  intro t u
  have hlt : 3 < u.leafCount := by decide
  have hno : ¬ Clash (t.hashed ++ u.hashed) := not_clash_of_forall_mem <| by
    simp [t, u, hashedForFour, build, ofLeaves, rowsOver, rowsFrom, leafRow, rowAbove, pairUp,
      root?, Leaf.of, Tree.hashed, Subtree.hashed, Subtree.join, Subtree.wrap, Subtree.hash]
  have huncovered : ¬ t.Covers u 3 := by
    rintro ⟨-, k, -, -, hsame⟩
    have ht : (t.leafToward? 3).map Leaf.payload = some [3] := by decide +kernel
    have hu : (u.leafToward? 3).map Leaf.payload = some [4] := by decide +kernel
    have heq := hsame 3 rfl
    rw [ht, hu] at heq
    cases heq
  obtain ⟨hremote, hlocal⟩ := (difference_surplus (t := t) hlt).resolve_left hno
  exact ⟨hlt, hno, huncovered, hremote.2 huncovered, hlocal.2 huncovered⟩

/-- **A leaf that is hidden by a copy.** The last leaf of three counts twice, so a fourth leaf with
the same payload makes no difference to any hash above it, and it is not reported. No two different
byte strings hashed for these trees have one digest. -/
theorem difference_hides_copy :
    let t := Tree.build [("a", [1]), ("b", [2]), ("c", [3])]
    let u := Tree.build [("a", [1]), ("b", [2]), ("c", [3]), ("d", [3])]
    t.leafCount = 3 ∧ u.leafCount = 4 ∧ ¬ Clash (t.hashed ++ u.hashed) ∧
      ¬ (t.difference u).Reports .remote 3 ∧ ¬ (u.difference t).Reports .local 3 := by
  intro t u
  have hno : ¬ Clash (t.hashed ++ u.hashed) := not_clash_of_forall_mem <| by
    simp [t, u, hashedForFour, build, ofLeaves, rowsOver, rowsFrom, leafRow, rowAbove, pairUp,
      root?, Leaf.of, Tree.hashed, Subtree.hashed, Subtree.join, Subtree.wrap, Subtree.hash]
  have hheight : u.height = t.height := by
    simp [t, u, height, build, ofLeaves, rowsOver, rowsFrom, leafRow, rowAbove, pairUp]
  have hroot : t.hashOver? 2 3 = u.hashOver? 2 3 := by
    simp [t, u, build, ofLeaves, rowsOver, rowsFrom, leafRow, rowAbove, pairUp, hashOver?, hashAt?,
      at?, row, Leaf.of]
  have hreports : ¬ (t.difference u).Reports .remote 3 := by
    intro h
    refine ((reports_remote_iff hheight.symm).1 h).2 2 ?_ hroot
    simp [t, height, build, ofLeaves, rowsOver, rowsFrom, leafRow, rowAbove, pairUp]
  refine ⟨by decide, by decide, hno, hreports, ?_⟩
  rwa [reports_swap]

/-! ### Trees of different heights -/

/-- **Between trees of different heights**, one of which may have no leaves, every leaf of either
side is reported, unless two different byte strings hashed for the trees have one digest. -/
theorem difference_reports_all (hheight : t.height ≠ u.height) :
    Clash (t.hashed ++ u.hashed) ∨
      ((∀ p < t.leafCount, (t.difference u).Reports .local p) ∧
        ∀ p < u.leafCount, (t.difference u).Reports .remote p) := by
  by_cases hclash : Clash (t.hashed ++ u.hashed)
  · exact .inl hclash
  exact .inr ⟨fun p hp => reports_of_height_ne hclash hheight hp,
    fun p hp => reports_remote_of_height_ne hclash hheight hp⟩

/-- Two leaves, which are the first two of five. -/
theorem difference_reports_all_five :
    let t := Tree.build [("a", [1]), ("b", [2])]
    let u := Tree.build [("a", [1]), ("b", [2]), ("c", [3]), ("d", [4]), ("e", [5])]
    t.height ≠ u.height ∧
      (Clash (t.hashed ++ u.hashed) ∨
        ((∀ p < t.leafCount, (t.difference u).Reports .local p) ∧
          ∀ p < u.leafCount, (t.difference u).Reports .remote p)) := by
  intro t u
  have hheight : t.height ≠ u.height := by
    simp [t, u, height, build, ofLeaves, rowsOver, rowsFrom, leafRow, rowAbove, pairUp]
  exact ⟨hheight, difference_reports_all hheight⟩

end Tree

end BlockLedger
