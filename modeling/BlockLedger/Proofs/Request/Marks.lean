import BlockLedger.InclusionProof.WellFormed
import BlockLedger.Proofs.Tree.Rows
import Mathlib.Data.Nat.Bitwise

/-!
# The rows of a generated proof

The proof for some positions is made row by row from lists of marks. This module says what stands in
each of its rows, so that nothing later speaks of lists of marks:

* `Tree.Marked`: a place is marked iff it is one of the positions or a place below it is marked
  (`Tree.marked_zero`, `Tree.marked_succ`);
* `Tree.getElem?_levels_proofAt`: row `k` of the proof is as wide as row `k` of the tree;
* `Tree.mem_entries_proofAt`: its entries are the marked places, and with the digest of the tree the
  unmarked places beside a marked one.
-/

namespace BlockLedger

/-! ### Siblings -/

theorem sibling_left (q : Nat) : sibling (2 * q) = 2 * q + 1 :=
  Nat.xor_one_of_even (even_two_mul q)

theorem sibling_right (q : Nat) : sibling (2 * q + 1) = 2 * q :=
  Nat.xor_one_of_odd (odd_two_mul_add_one q)

theorem sibling_div_two (q : Nat) : sibling q / 2 = q / 2 := by
  rcases eq_left_or_eq_right q with h | h
  · rw [h, sibling_left]
    omega
  · rw [h, sibling_right]
    omega

/-! ### Marks of the rows -/

/-- The marks of the row `k`, from those of the lowest row. -/
def marksAt (marks : List Bool) : Nat → List Bool
  | 0 => marks
  | k + 1 => marksAbove (marksAt marks k)

theorem marksAt_marksAbove (marks : List Bool) (k : Nat) :
    marksAt (marksAbove marks) k = marksAt marks (k + 1) := by
  induction k with
  | zero => rfl
  | succ k ih =>
    rw [marksAt, ih]
    rfl

/-- The row `k` of a proof is the one for the row `k` of the tree and the marks of that row. -/
theorem getElem?_levelsFor (marks : List Bool) (rows : List (List Subtree)) (k : Nat) :
    (levelsFor marks rows)[k]? = rows[k]?.map (levelFor (marksAt marks k)) := by
  induction rows generalizing marks k with
  | nil => rfl
  | cons row rows ih =>
    cases k with
    | zero => rfl
    | succ k =>
      rw [levelsFor, List.getElem?_cons_succ, ih, marksAt_marksAbove, List.getElem?_cons_succ]

theorem length_levelsFor (marks : List Bool) (rows : List (List Subtree)) :
    (levelsFor marks rows).length = rows.length := by
  induction rows generalizing marks with
  | nil => rfl
  | cons row rows ih => rw [levelsFor, List.length_cons, ih, List.length_cons]

/-- A mark above is set iff one of the two below is. -/
theorem getElem?_marksAbove {marks : List Bool} {q : Nat} :
    (marksAbove marks)[q]? = some true ↔
      marks[2 * q]? = some true ∨ marks[2 * q + 1]? = some true := by
  rw [marksAbove, getElem?_pairUp, joinAt]
  cases hl : marks[2 * q]? with
  | none =>
    -- the row has ended before the place on the left, so before the one on the right, too
    have hle : marks.length ≤ 2 * q := List.getElem?_eq_none_iff.1 hl
    rw [List.getElem?_eq_none (Nat.le_succ_of_le hle)]
    simp
  | some a => cases marks[2 * q + 1]? <;> simp

theorem getD_eq_true_iff {marks : List Bool} {q : Nat} :
    marks.getD q false = true ↔ marks[q]? = some true := by
  rw [List.getD_eq_getElem?_getD]
  cases marks[q]? <;> simp

namespace Tree

variable {t : Tree} {positions : List Nat}

/-- **A marked place**: it is one of the positions asked for, or a place below it is marked. -/
def Marked (t : Tree) (positions : List Nat) (k q : Nat) : Prop :=
  (marksAt (t.marks positions) k)[q]? = some true

theorem marked_zero {q : Nat} : t.Marked positions 0 q ↔ q ∈ positions ∧ q < t.leafCount := by
  rw [Marked, marksAt, marks, List.getElem?_map, Option.map_eq_some_iff]
  refine ⟨?_, ?_⟩
  · rintro ⟨i, hi, hmem⟩
    obtain ⟨hlt, rfl⟩ := List.getElem?_eq_some_iff.1 hi
    rw [List.length_range] at hlt
    rw [List.getElem_range] at hmem
    exact ⟨List.contains_iff_mem.1 hmem, hlt⟩
  · rintro ⟨hmem, hlt⟩
    exact ⟨q, List.getElem?_range hlt, List.contains_iff_mem.2 hmem⟩

theorem marked_succ {k q : Nat} :
    t.Marked positions (k + 1) q ↔
      t.Marked positions k (2 * q) ∨ t.Marked positions k (2 * q + 1) :=
  getElem?_marksAbove

/-- Marks are handed on upwards. -/
theorem Marked.half {k q : Nat} (h : t.Marked positions k q) : t.Marked positions (k + 1) (q / 2) := by
  rw [marked_succ]
  rcases eq_left_or_eq_right q with hq | hq
  · exact .inl (hq ▸ h)
  · exact .inr (hq ▸ h)

/-- Only places that a row has are marked. -/
theorem Marked.lt_width {k q : Nat} (h : t.Marked positions k q) (hk : k < t.height) :
    q < t.width k := by
  induction k generalizing q with
  | zero =>
    rw [width_zero]
    exact (marked_zero.1 h).2
  | succ k ih =>
    -- a mark comes from a place below, and the row above has room for all of them
    rw [width_succ hk]
    have hk' : k < t.height := Nat.lt_of_succ_lt hk
    rcases marked_succ.1 h with h | h
    · have := ih h hk'
      omega
    · have := ih h hk'
      omega

/-! ### Rows and entries -/

/-- What stands at a place of a row in the proof for some positions. -/
theorem entryAt_eq_some_iff {marks : List Bool} {s : Subtree} {q : Nat} {e : Entry} :
    s.entryAt marks q = some e ↔
      (marks[q]? = some true ∧ e = ⟨q, s.slot⟩) ∨
        (marks[q]? ≠ some true ∧ marks[sibling q]? = some true ∧ e = ⟨q, .supplied s.hash⟩) := by
  rw [Subtree.entryAt]
  by_cases hq : marks.getD q false = true
  · rw [if_pos hq]
    simp [getD_eq_true_iff.1 hq, eq_comm]
  · rw [if_neg hq]
    have hq' : marks[q]? ≠ some true := fun h => hq (getD_eq_true_iff.2 h)
    by_cases hs : marks.getD (sibling q) false = true
    · rw [if_pos hs]
      simp [hq', getD_eq_true_iff.1 hs, eq_comm]
    · rw [if_neg hs]
      have hs' : marks[sibling q]? ≠ some true := fun h => hs (getD_eq_true_iff.2 h)
      simp [hq', hs']

theorem position_of_entryAt {marks : List Bool} {s : Subtree} {q : Nat} {e : Entry}
    (h : s.entryAt marks q = some e) : e.position = q := by
  rcases entryAt_eq_some_iff.1 h with ⟨-, rfl⟩ | ⟨-, -, rfl⟩
  · rfl
  · rfl

theorem mem_entries_levelFor {marks : List Bool} {row : List Subtree} {e : Entry} :
    e ∈ (levelFor marks row).entries ↔
      ∃ s, row[e.position]? = some s ∧ s.entryAt marks e.position = some e := by
  rw [levelFor, List.mem_filterMap]
  refine ⟨?_, ?_⟩
  · rintro ⟨⟨s, q⟩, hs, he⟩
    obtain rfl := position_of_entryAt he
    exact ⟨s, List.mem_zipIdx_iff_getElem?.1 hs, he⟩
  · rintro ⟨s, hs, he⟩
    exact ⟨(s, e.position), List.mem_zipIdx_iff_getElem?.2 hs, he⟩

/-- The entries stand in the order of the row. -/
theorem ordered_levelFor (marks : List Bool) (row : List Subtree) : (levelFor marks row).Ordered := by
  refine ⟨?_, ?_⟩
  · -- places are numbered upwards, and an entry keeps the number of its place
    have hzip : row.zipIdx.Pairwise (·.2 < ·.2) := by
      rw [← List.pairwise_map (f := Prod.snd), List.zipIdx_map_snd]
      exact List.pairwise_lt_range'
    refine hzip.filterMap _ fun a b hab e he f hf => ?_
    rw [position_of_entryAt (Option.mem_def.1 he), position_of_entryAt (Option.mem_def.1 hf)]
    exact hab
  · intro e he
    obtain ⟨s, hs, -⟩ := mem_entries_levelFor.1 he
    exact (List.getElem?_eq_some_iff.1 hs).1

/-- **The rows of a generated proof** are those of the tree. -/
theorem getElem?_levels_proofAt (t : Tree) (positions : List Nat) (k : Nat) :
    (t.proofAt positions).levels[k]? =
      t.rows[k]?.map (levelFor (marksAt (t.marks positions) k)) :=
  getElem?_levelsFor _ _ _

theorem length_levels_proofAt (t : Tree) (positions : List Nat) :
    (t.proofAt positions).levels.length = t.height :=
  length_levelsFor _ _

theorem level_proofAt {k : Nat} {l : Level} (hl : (t.proofAt positions).levels[k]? = some l) :
    k < t.height ∧ l = levelFor (marksAt (t.marks positions) k) (t.row k) := by
  rw [getElem?_levels_proofAt] at hl
  obtain ⟨row, hrow, rfl⟩ := Option.map_eq_some_iff.1 hl
  have hk : k < t.height := (List.getElem?_eq_some_iff.1 hrow).1
  rw [getElem?_rows hk] at hrow
  cases hrow
  exact ⟨hk, rfl⟩

theorem width_level_proofAt {k : Nat} {l : Level}
    (hl : (t.proofAt positions).levels[k]? = some l) : l.width = t.width k := by
  obtain ⟨-, rfl⟩ := level_proofAt hl
  rfl

/-- **The entries of a generated proof**: the marked places, and with their digests the unmarked
places beside a marked one. -/
theorem mem_entries_proofAt {k : Nat} {l : Level}
    (hl : (t.proofAt positions).levels[k]? = some l) {e : Entry} :
    e ∈ l.entries ↔ ∃ s, t.at? k e.position = some s ∧
      ((t.Marked positions k e.position ∧ e.slot = s.slot) ∨
        (¬ t.Marked positions k e.position ∧ t.Marked positions k (sibling e.position) ∧
          e.slot = .supplied s.hash)) := by
  obtain ⟨-, rfl⟩ := level_proofAt hl
  rw [mem_entries_levelFor]
  refine exists_congr fun s => and_congr_right fun _ => ?_
  rw [entryAt_eq_some_iff]
  cases e
  simp [Marked]

/-- A place of the tree has an entry iff it or its sibling is marked. -/
theorem has_proofAt {k : Nat} {l : Level} (hl : (t.proofAt positions).levels[k]? = some l) {q : Nat} :
    l.Has q ↔ q < t.width k ∧ (t.Marked positions k q ∨ t.Marked positions k (sibling q)) := by
  refine ⟨?_, ?_⟩
  · rintro ⟨e, he, rfl⟩
    obtain ⟨s, hs, h⟩ := (mem_entries_proofAt hl).1 he
    refine ⟨lt_width_of_at? hs, ?_⟩
    rcases h with ⟨hm, -⟩ | ⟨-, hm, -⟩
    · exact .inl hm
    · exact .inr hm
  · rintro ⟨hlt, hm⟩
    obtain ⟨s, hs⟩ := exists_at? hlt
    -- a marked place has its own entry, an unmarked one has it because of its sibling
    by_cases hq : t.Marked positions k q
    · exact ⟨⟨q, s.slot⟩, (mem_entries_proofAt hl).2 ⟨s, hs, .inl ⟨hq, rfl⟩⟩, rfl⟩
    · have hsib := hm.resolve_left hq
      exact ⟨⟨q, .supplied s.hash⟩,
        (mem_entries_proofAt hl).2 ⟨s, hs, .inr ⟨hq, hsib, rfl⟩⟩, rfl⟩

/-! ### Slots -/

/-- In the lowest row a subtree is a leaf at its position. -/
theorem slot_of_at?_zero {q : Nat} {s : Subtree} (h : t.at? 0 q = some s) :
    ∃ leaf, t.leaves[q]? = some leaf ∧ s.slot = .leaf leaf.id := by
  rw [at?_zero] at h
  obtain ⟨leaf, hleaf, rfl⟩ := Option.map_eq_some_iff.1 h
  exact ⟨leaf, hleaf, rfl⟩

/-- In the rows above, every subtree is an inner one. -/
theorem slot_of_at?_succ {k q : Nat} {s : Subtree} (h : t.at? (k + 1) q = some s) :
    s.slot = .derived := by
  rcases at?_succ_eq_some h with ⟨c, -, -, rfl⟩ | ⟨l, r, -, -, rfl⟩
  · rfl
  · rfl

/-- In the lowest row exactly the positions asked for name leaves. -/
theorem leaf_mem_proofAt {l : Level} (hl : (t.proofAt positions).levels[0]? = some l) {e : Entry}
    {id : String} (hs : e.slot = .leaf id) :
    e ∈ l.entries ↔
      e.position ∈ positions ∧ ∃ leaf, t.leaves[e.position]? = some leaf ∧ leaf.id = id := by
  rw [mem_entries_proofAt hl]
  refine ⟨?_, ?_⟩
  · rintro ⟨s, hat, ⟨hm, hslot⟩ | ⟨-, -, hslot⟩⟩
    · obtain ⟨leaf, hleaf, hid⟩ := slot_of_at?_zero hat
      rw [hs, hid] at hslot
      exact ⟨(marked_zero.1 hm).1, leaf, hleaf, (Slot.leaf.inj hslot).symm⟩
    · rw [hs] at hslot
      cases hslot
  · rintro ⟨hmem, leaf, hleaf, rfl⟩
    refine ⟨.leaf e.position leaf, by rw [at?_zero, hleaf, Option.map_some], .inl ⟨?_, hs⟩⟩
    exact marked_zero.2 ⟨hmem, (List.getElem?_eq_some_iff.1 hleaf).1⟩

/-- In the rows above exactly the marked places are derived. -/
theorem derived_mem_proofAt {k : Nat} {l : Level}
    (hl : (t.proofAt positions).levels[k + 1]? = some l) {e : Entry} (hs : e.slot = .derived) :
    e ∈ l.entries ↔ t.Marked positions (k + 1) e.position := by
  rw [mem_entries_proofAt hl]
  refine ⟨?_, fun hm => ?_⟩
  · rintro ⟨s, -, ⟨hm, -⟩ | ⟨-, -, hslot⟩⟩
    · exact hm
    · rw [hs] at hslot
      cases hslot
  · obtain ⟨s, hat⟩ := exists_at? (hm.lt_width (level_proofAt hl).1)
    exact ⟨s, hat, .inl ⟨hm, by rw [hs, slot_of_at?_succ hat]⟩⟩

/-- A supplied digest is that of the tree at an unmarked place. -/
theorem supplied_mem_proofAt {k : Nat} {l : Level}
    (hl : (t.proofAt positions).levels[k]? = some l) {e : Entry} {d : Digest}
    (hs : e.slot = .supplied d) (he : e ∈ l.entries) :
    ¬ t.Marked positions k e.position ∧ t.hashAt? k e.position = some d := by
  obtain ⟨s, hat, ⟨-, hslot⟩ | ⟨hm, -, hslot⟩⟩ := (mem_entries_proofAt hl).1 he
  · -- a marked place is a leaf or derived, in whichever row it is
    rw [hs] at hslot
    cases s with
    | leaf => cases hslot
    | lone => cases hslot
    | pair => cases hslot
  · rw [hs] at hslot
    cases hslot
    exact ⟨hm, by rw [hashAt?, hat, Option.map_some]⟩

end Tree

end BlockLedger
