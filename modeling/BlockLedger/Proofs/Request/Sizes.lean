import BlockLedger.Proofs.Bundle.RoundTrip
import BlockLedger.Proofs.Ledger.Requests

/-!
# Generated bundles can be written

The rows of a tree are no wider than its leaves are many, and an entry of a generated proof stands in a
row of the tree. So the numbers of a generated bundle fit where the number of leaves does, and the
leaves that it names are named in the tree (`Tree.writable_bundle`). A ledger never holds a block
without an identifier, so what it answers is read back from its text
(`Ledger.Consistent.bundle_eq_ok`).
-/

namespace BlockLedger

namespace Tree

variable {t : Tree} {positions : List Nat} {ids : List String}

/-- **No row is wider than the lowest one.** -/
theorem width_le_leafCount (t : Tree) (k : Nat) : t.width k ≤ t.leafCount := by
  induction k with
  | zero => exact Nat.le_of_eq t.width_zero
  | succ k ih =>
    by_cases hk : k + 1 < t.height
    · -- a row with another one above it has more than one place, so it is halved
      rw [width_succ hk]
      have hwide := one_lt_width hk
      omega
    · have hnone : t.row (k + 1) = [] := List.getD_eq_default _ _ (Nat.le_of_not_lt hk)
      rw [width, hnone]
      exact Nat.zero_le _

/-- **A generated proof can be written** if the leaves have identifiers and are no more than a number
of 64 bits can count. -/
theorem writable_proofAt (hsmall : t.leafCount < unsignedLimit)
    (hnamed : ∀ leaf ∈ t.leaves, leaf.id ≠ "") : (t.proofAt positions).Writable := by
  intro l hl
  obtain ⟨k, hk⟩ := List.mem_iff_getElem?.1 hl
  have hwidth : t.width k < unsignedLimit := (t.width_le_leafCount k).trans_lt hsmall
  constructor
  · rw [width_level_proofAt hk]
    exact hwidth
  · intro e he
    obtain ⟨s, hs, -⟩ := (mem_entries_proofAt hk).1 he
    exact (lt_width_of_at? hs).trans hwidth
  · intro e he hslot
    obtain ⟨s, hs, ⟨-, hslot'⟩ | ⟨-, -, hslot'⟩⟩ := (mem_entries_proofAt hk).1 he
    · rw [hslot] at hslot'
      -- only the lowest row names leaves
      cases k with
      | zero =>
        obtain ⟨leaf, hleaf, hid⟩ := slot_of_at?_zero hs
        rw [hid] at hslot'
        exact hnamed leaf (List.mem_of_getElem? hleaf) (Slot.leaf.inj hslot').symm
      | succ k =>
        rw [slot_of_at?_succ hs] at hslot'
        cases hslot'
    · rw [hslot] at hslot'
      cases hslot'

/-- A request that has been answered is not empty, and all that it asks for is there. -/
theorem request_of_bundle {b : Bundle} (h : t.bundle ids = .ok b) :
    ids ≠ [] ∧ ∀ id ∈ ids, id ∈ t.leaves.map Leaf.id := by
  -- whatever is wrong with a request is reported
  have hanswered : ∀ f : RequestFault, ¬ f.Arises (t.leaves.map Leaf.id) ids := by
    intro f harises
    rw [bundle_eq_error_iff.2 (prove_eq_error_iff.2 harises)] at h
    cases h
  have hsome : t.leaves.map Leaf.id ≠ [] := fun hnone => hanswered _ (.emptyTree hnone)
  refine ⟨fun hnil => hanswered _ (.emptyRequest hsome hnil), fun id hid => ?_⟩
  cases hfind : ids.find? fun id => (t.positionOf? id).isNone with
  | some unknown =>
    obtain ⟨hunknown, before, after, hids, hbefore⟩ := find?_unknown_eq_some_iff.1 hfind
    exact absurd (.notFound hsome hids hbefore hunknown) (hanswered _)
  | none =>
    by_contra hnot
    exact List.find?_eq_none.1 hfind id hid (isNone_positionOf?_iff.2 hnot)

/-- **A generated bundle can be written** under the same conditions. -/
theorem writable_bundle (hsmall : t.leafCount < unsignedLimit)
    (hnamed : ∀ leaf ∈ t.leaves, leaf.id ≠ "") {b : Bundle} (h : t.bundle ids = .ok b) :
    b.Writable := by
  obtain ⟨hne, hin⟩ := request_of_bundle h
  obtain ⟨b', hb', hprove, -, hleaves, -⟩ := exists_bundle hne hin
  obtain rfl : b' = b := Except.ok.inj (hb'.symm.trans h)
  have hproof : b'.proof = t.proofAt (ids.filterMap t.positionOf?) :=
    Except.ok.inj (hprove.symm.trans (prove_eq_ok hne hin))
  constructor
  · intro l hl
    rw [hleaves] at hl
    obtain ⟨leaf, hleaf, rfl⟩ := List.mem_map.1 hl
    obtain ⟨q, -, hq⟩ := mem_leavesAt.1 hleaf
    exact hnamed leaf (List.mem_of_getElem? hq)
  · rw [hproof]
    exact writable_proofAt hsmall hnamed

end Tree

namespace Ledger

variable {l : Ledger} {ids : List String} {b : Bundle}

/-- **What a ledger answers** can be written as long as its blocks can be counted. It is accepted
against the root that is published then, and against no other. -/
theorem Consistent.bundle_eq_ok (h : l.Consistent) (hsmall : l.blocks.length < unsignedLimit)
    (hb : l.bundle ids = .ok b) :
    b.Writable ∧ l.snapshot.tree.rootHash? = some b.root ∧
      ∀ root, b.verifyAgainst root = .ok (decide (root = b.root)) := by
  have hshort : ids.length ≤ l.limit := by
    by_contra hlong
    rw [bundle, answer, if_pos (Nat.lt_of_not_le hlong)] at hb
    cases hb
  have htree : l.snapshot.tree.bundle ids = .ok b := by
    rw [bundle, answer, if_neg (Nat.not_lt.2 hshort)] at hb
    cases htree : l.snapshot.tree.bundle ids with
    | error f =>
      rw [htree] at hb
      cases hb
    | ok b' =>
      rw [htree] at hb
      cases hb
      rfl
  have hcount : l.snapshot.tree.leafCount < unsignedLimit := by
    rw [h.tree, Tree.leafCount_ofBlocks]
    exact hsmall
  have hnamed : ∀ leaf ∈ l.snapshot.tree.leaves, leaf.id ≠ "" := by
    rw [h.tree, Tree.leaves_ofBlocks]
    intro leaf hleaf
    obtain ⟨block, hblock, rfl⟩ := List.mem_map.1 hleaf
    exact h.named block hblock
  obtain ⟨hne, hin⟩ := Tree.request_of_bundle htree
  obtain ⟨b', hb', -, hroot, -, hverify⟩ := Tree.exists_bundle hne hin
  obtain rfl : b' = b := Except.ok.inj (hb'.symm.trans htree)
  exact ⟨Tree.writable_bundle hcount hnamed htree, hroot, hverify⟩

end Ledger

end BlockLedger
