import BlockLedger.Bundle
import BlockLedger.Proofs.Request.Completeness
import Mathlib.Data.List.Perm.Subperm

/-!
# What a request is answered with

A request for a proof is refused for one of three reasons, and which of them it is depends on the
identifiers of the leaves alone (`RequestFault.Arises`). A request for a bundle is refused for the
same reasons.

The bundle for a request holds the leaves at the positions asked for, in the order of the tree
(`Tree.leavesAt`). Each of them is looked up again by its identifier when the bundle is made. This
finds the same leaf, since all positions asked for are first ones (`Tree.held?_of_firstPosition`).
So the leaves are those that the proof was made for, and the bundle is accepted against its own root
and against no other (`Tree.exists_bundle`).
-/

namespace BlockLedger

/-! ### Requests that are refused -/

/-- **Why a request is refused**, by the identifiers that leaves have: there are no leaves, no leaf
has one of the identifiers asked for, or none is asked for. Of several unknown identifiers the first
one is reported. -/
inductive RequestFault.Arises (known ids : List String) : RequestFault → Prop
  | emptyTree (hnone : known = []) : Arises known ids .emptyTree
  | notFound {before after : List String} {id : String} (hsome : known ≠ [])
    (hids : ids = before ++ id :: after) (hbefore : ∀ x ∈ before, x ∈ known) (hid : id ∉ known) :
    Arises known ids (.notFound id)
  | emptyRequest (hsome : known ≠ []) (hids : ids = []) : Arises known ids .emptyRequest

namespace Tree

variable {t : Tree} {positions : List Nat} {ids : List String}

theorem isNone_positionOf?_iff {id : String} :
    (t.positionOf? id).isNone = true ↔ id ∉ t.leaves.map Leaf.id := by
  rw [Option.isNone_iff_eq_none, positionOf?, List.findIdx?_eq_none_iff]
  simp

/-- An identifier that a leaf has stands for some position. -/
theorem exists_positionOf? {id : String} (h : id ∈ t.leaves.map Leaf.id) :
    ∃ q, t.positionOf? id = some q := by
  refine Option.ne_none_iff_exists'.1 fun hnone => ?_
  exact isNone_positionOf?_iff.1 (Option.isNone_iff_eq_none.2 hnone) h

theorem isEmpty_iff : t.isEmpty = true ↔ t.leaves.map Leaf.id = [] := by
  rw [isEmpty, List.isEmpty_iff, List.map_eq_nil_iff]

/-- The first identifier that no leaf has. -/
theorem find?_unknown_eq_some_iff {id : String} :
    ids.find? (fun id => (t.positionOf? id).isNone) = some id ↔
      id ∉ t.leaves.map Leaf.id ∧ ∃ before after, ids = before ++ id :: after ∧
        ∀ x ∈ before, x ∈ t.leaves.map Leaf.id := by
  have hknown : ∀ x, (!(t.positionOf? x).isNone) = true ↔ x ∈ t.leaves.map Leaf.id := by
    intro x
    rw [Bool.not_eq_true', Bool.eq_false_iff, ne_eq, isNone_positionOf?_iff, not_not]
  simp only [List.find?_eq_some_iff_append, isNone_positionOf?_iff, hknown]

/-- **A request is refused** for exactly these reasons. -/
theorem prove_eq_error_iff {f : RequestFault} :
    t.prove ids = .error f ↔ f.Arises (t.leaves.map Leaf.id) ids := by
  refine ⟨fun h => ?_, fun h => ?_⟩
  · rw [prove] at h
    by_cases hempty : t.isEmpty = true
    · rw [if_pos hempty] at h
      cases h
      exact .emptyTree (isEmpty_iff.1 hempty)
    have hsome : t.leaves.map Leaf.id ≠ [] := fun hnil => hempty (isEmpty_iff.2 hnil)
    rw [if_neg hempty] at h
    split at h
    · next id hfind =>
      cases h
      obtain ⟨hid, before, after, hids, hbefore⟩ := find?_unknown_eq_some_iff.1 hfind
      exact .notFound hsome hids hbefore hid
    · split at h
      · next hids =>
        cases h
        exact .emptyRequest hsome (List.isEmpty_iff.1 hids)
      · cases h
  · cases h with
    | emptyTree hnone => rw [prove, if_pos (isEmpty_iff.2 hnone)]
    | @notFound before after id hsome hids hbefore hid =>
      have hfind := find?_unknown_eq_some_iff.2 ⟨hid, before, after, hids, hbefore⟩
      rw [prove, if_neg fun hempty => hsome (isEmpty_iff.1 hempty), hfind]
    | emptyRequest hsome hids =>
      rw [prove, if_neg fun hempty => hsome (isEmpty_iff.1 hempty), hids]
      rfl

/-- A request for a bundle is refused when one for a proof is. -/
theorem bundle_eq_error_iff {f : RequestFault} : t.bundle ids = .error f ↔ t.prove ids = .error f := by
  rw [bundle]
  cases t.prove ids with
  | error f' => simp
  | ok p => simp

/-! ### The leaves of a bundle -/

/-- **The leaves at some positions**, in the order of the tree. -/
def leavesAt (t : Tree) (positions : List Nat) : List Leaf :=
  (t.leaves.zipIdx.filter fun l => decide (l.2 ∈ positions)).map (·.1)

theorem mem_leavesAt {leaf : Leaf} :
    leaf ∈ t.leavesAt positions ↔ ∃ q ∈ positions, t.leaves[q]? = some leaf := by
  simp only [leavesAt, List.mem_map, List.mem_filter, List.mem_zipIdx_iff_getElem?,
    decide_eq_true_eq]
  refine ⟨?_, ?_⟩
  · rintro ⟨⟨l, q⟩, ⟨hleaf, hq⟩, rfl⟩
    exact ⟨q, hq, hleaf⟩
  · rintro ⟨q, hq, hleaf⟩
    exact ⟨(leaf, q), ⟨hleaf, hq⟩, rfl⟩

/-- The subtrees of the lowest row with their positions. -/
theorem zipIdx_leafRow (leaves : List Leaf) :
    (leafRow leaves).zipIdx = leaves.zipIdx.map fun l => (.leaf l.2 l.1, l.2) := by
  refine List.ext_getElem? fun q => ?_
  rw [leafRow, List.getElem?_zipIdx, List.getElem?_map, List.getElem?_map, List.getElem?_zipIdx]
  cases leaves[q]? <;> simp

/-- The lowest row of a proof names the marked leaves. -/
theorem leafIds_levelFor (marks : List Bool) (leaves : List Leaf) :
    (levelFor marks (leafRow leaves)).leafIds =
      (leaves.zipIdx.filter fun l => marks.getD l.2 false).map (·.1.id) := by
  rw [Level.leafIds, levelFor, zipIdx_leafRow, List.filterMap_map, List.filterMap_filterMap,
    ← List.filterMap_eq_map, List.filterMap_filter]
  refine List.filterMap_congr fun l _ => ?_
  rw [Function.comp_apply, Subtree.entryAt]
  -- an unmarked leaf has no entry, or a digest
  split_ifs <;> rfl

/-- **A generated proof names the leaves** at the positions asked for, in the order of the tree. -/
theorem leafIds_proofAt (t : Tree) (positions : List Nat) :
    (t.proofAt positions).leafIds = (t.leavesAt positions).map Leaf.id := by
  by_cases hleaves : t.leaves = []
  · rw [InclusionProof.leafIds, proofAt, rows_of_no_leaves hleaves, leavesAt, hleaves]
    rfl
  · have hrow : t.rows[0]? = some (leafRow t.leaves) := by
      rw [getElem?_rows (height_pos hleaves), row_zero]
    rw [InclusionProof.leafIds, List.head?_eq_getElem?, getElem?_levels_proofAt, hrow,
      Option.map_some, Option.map_some, Option.getD_some, leafIds_levelFor, leavesAt, List.map_map]
    refine congrArg _ (List.filter_congr fun l hl => ?_)
    -- a leaf that the tree has is marked iff its position is asked for
    have hlt : l.2 < t.leafCount :=
      (List.getElem?_eq_some_iff.1 (List.mem_zipIdx_iff_getElem?.1 hl)).1
    rw [Bool.eq_iff_iff, getD_eq_true_iff, decide_eq_true_iff, ← Marked, marked_zero]
    exact and_iff_left hlt

/-- Looking up the identifier of a first position leads to the leaf there. -/
theorem held?_of_firstPosition {q : Nat} {leaf : Leaf} (hleaf : t.leaves[q]? = some leaf)
    (hfirst : t.positionOf? leaf.id = some q) : t.held? leaf.id = some (leaf.id, leaf.payload) := by
  obtain ⟨hlt, -, hbefore⟩ := List.findIdx?_eq_some_iff_getElem.1 hfirst
  obtain ⟨_, heq⟩ := List.getElem?_eq_some_iff.1 hleaf
  have hfind : t.leaves.find? (·.id = leaf.id) = some leaf := by
    refine List.find?_eq_some_iff_getElem.2 ⟨by simp, q, hlt, heq, fun j hj => ?_⟩
    rw [Bool.not_eq_true']
    exact Bool.eq_false_iff.2 (hbefore j hj)
  rw [held?, hfind, Option.map_some]

/-- **The leaves that a proof names** are looked up to themselves if they stand at first
positions. -/
theorem filterMap_held?_leafIds (hfirst : t.FirstPositions positions) :
    (t.proofAt positions).leafIds.filterMap t.held? =
      (t.leavesAt positions).map fun l => (l.id, l.payload) := by
  rw [leafIds_proofAt, List.filterMap_map, ← List.filterMap_eq_map]
  refine List.filterMap_congr fun leaf hmem => ?_
  obtain ⟨q, hq, hleaf⟩ := mem_leavesAt.1 hmem
  obtain ⟨leaf', hleaf', hposition⟩ := hfirst q hq
  obtain rfl : leaf = leaf' := Option.some.inj (hleaf.symm.trans hleaf')
  exact held?_of_firstPosition hleaf hposition

/-- The leaves at first positions are without repetitions. -/
theorem nodup_ids_leavesAt (hfirst : t.FirstPositions positions) :
    ((t.leavesAt positions).map Leaf.id).Nodup := by
  have hnodup : t.leaves.zipIdx.Pairwise fun l l' => l.2 ≠ l'.2 := by
    rw [← List.pairwise_map (f := Prod.snd), List.zipIdx_map_snd]
    exact List.nodup_range'
  rw [leavesAt, List.map_map, List.nodup_iff_pairwise_ne, List.pairwise_map]
  refine (hnodup.filter _).imp_of_mem fun {l l'} hl hl' hne hid => hne ?_
  simp only [List.mem_filter, List.mem_zipIdx_iff_getElem?, decide_eq_true_eq] at hl hl'
  exact hfirst.eq_of_id_eq hl.2 hl'.2 hl.1 hl'.1 hid

/-- The leaves that a checker holds are those at the positions. -/
theorem heldAt_leavesAt (hfirst : t.FirstPositions positions) :
    t.HeldAt positions ((t.leavesAt positions).map fun l => (l.id, l.payload)) where
  nodup := by
    rw [List.map_map]
    exact nodup_ids_leavesAt hfirst
  mem l := by
    rw [List.mem_map]
    refine ⟨?_, ?_⟩
    · rintro ⟨leaf, hmem, rfl⟩
      obtain ⟨q, hq, hleaf⟩ := mem_leavesAt.1 hmem
      exact ⟨q, hq, leaf, hleaf, rfl⟩
    · rintro ⟨q, hq, leaf, hleaf, rfl⟩
      exact ⟨leaf, mem_leavesAt.2 ⟨q, hq, hleaf⟩, rfl⟩

/-- Where no identifier is repeated, the leaves asked for are those that have one of the
identifiers. -/
theorem leavesAt_of_nodup (hdistinct : (t.leaves.map Leaf.id).Nodup) (ids : List String) :
    t.leavesAt (ids.filterMap t.positionOf?) = t.leaves.filter fun l => decide (l.id ∈ ids) := by
  have hasked : ∀ l ∈ t.leaves.zipIdx,
      decide (l.2 ∈ ids.filterMap t.positionOf?) = decide (l.1.id ∈ ids) := by
    rintro ⟨leaf, q⟩ hl
    have hleaf := List.mem_zipIdx_iff_getElem?.1 hl
    rw [decide_eq_decide, List.mem_filterMap]
    refine ⟨?_, fun hid => ?_⟩
    · rintro ⟨id, hid, hq⟩
      obtain ⟨leaf', hleaf', rfl⟩ := exists_leaf_of_positionOf? hq
      obtain rfl : leaf = leaf' := Option.some.inj (hleaf.symm.trans hleaf')
      exact hid
    · obtain ⟨q', hq'⟩ := exists_positionOf? (List.mem_map_of_mem (List.mem_of_getElem? hleaf))
      obtain ⟨leaf', hleaf', hsame⟩ := exists_leaf_of_positionOf? hq'
      -- two leaves with one identifier would be a repetition
      have hids : (t.leaves.map Leaf.id)[q']? = (t.leaves.map Leaf.id)[q]? := by
        rw [List.getElem?_map, List.getElem?_map, hleaf, hleaf', Option.map_some, Option.map_some,
          hsame]
      have hlt : q' < (t.leaves.map Leaf.id).length := by
        rw [List.length_map]
        exact (List.getElem?_eq_some_iff.1 hleaf').1
      obtain rfl : q' = q := (List.getElem?_inj hlt hdistinct).1 hids
      exact ⟨leaf.id, hid, hq'⟩
  rw [leavesAt, List.filter_congr hasked]
  calc (t.leaves.zipIdx.filter ((fun l => decide (l.id ∈ ids)) ∘ Prod.fst)).map Prod.fst
      = (t.leaves.zipIdx.map Prod.fst).filter fun l => decide (l.id ∈ ids) := by
        rw [List.filter_map]
    _ = t.leaves.filter fun l => decide (l.id ∈ ids) := by rw [List.zipIdx_map_fst]

/-- No more leaves are asked for than there are identifiers. -/
theorem length_leavesAt_le (t : Tree) (ids : List String) :
    (t.leavesAt (ids.filterMap t.positionOf?)).length ≤ ids.length := by
  have hsubset : (t.leavesAt (ids.filterMap t.positionOf?)).map Leaf.id ⊆ ids := by
    intro id hmem
    obtain ⟨leaf, hleaf, rfl⟩ := List.mem_map.1 hmem
    obtain ⟨q, hq, hat⟩ := mem_leavesAt.1 hleaf
    obtain ⟨id, hid, hposition⟩ := List.mem_filterMap.1 hq
    obtain ⟨leaf', hat', rfl⟩ := exists_leaf_of_positionOf? hposition
    obtain rfl : leaf = leaf' := Option.some.inj (hat.symm.trans hat')
    exact hid
  have hnodup := nodup_ids_leavesAt (t.firstPositions_of_ids ids)
  have hle := (List.subperm_of_subset hnodup hsubset).length_le
  rwa [List.length_map] at hle

/-! ### Bundles that are accepted -/

/-- **A request that is not refused** is answered with a bundle. It holds the proof for the request,
the root of the tree and the leaves asked for, and it is accepted against this root and no other. -/
theorem exists_bundle (hne : ids ≠ []) (hin : ∀ id ∈ ids, id ∈ t.leaves.map Leaf.id) :
    ∃ b, t.bundle ids = .ok b ∧ t.prove ids = .ok b.proof ∧ t.rootHash? = some b.root ∧
      b.leaves = (t.leavesAt (ids.filterMap t.positionOf?)).map (fun l => (l.id, l.payload)) ∧
      ∀ root, b.verifyAgainst root = .ok (decide (root = b.root)) := by
  have hprove := prove_eq_ok hne hin
  have hfirst := t.firstPositions_of_ids ids
  have hleaves := filterMap_held?_leafIds hfirst
  have hpositions : ids.filterMap t.positionOf? ≠ [] := by
    obtain ⟨id, hid⟩ := List.exists_mem_of_ne_nil ids hne
    obtain ⟨q, hq⟩ := exists_positionOf? (hin id hid)
    exact List.ne_nil_of_mem (List.mem_filterMap.2 ⟨id, hid, hq⟩)
  have hagree : AgreeOutside t t (ids.filterMap t.positionOf?) := ⟨rfl, fun _ _ => rfl⟩
  obtain ⟨root, hroot, hverify⟩ := verify_proofAt hpositions hfirst hagree (heldAt_leavesAt hfirst)
  refine ⟨⟨root, _, _⟩, ?_, hprove, hroot, hleaves, fun other => ?_⟩
  · rw [bundle, hprove, hroot]
    rfl
  · rw [Bundle.verifyAgainst, hleaves]
    exact InclusionProof.verify_of_accepted hverify other

end Tree

end BlockLedger
