import BlockLedger.Proofs.Replay.Hashed
import BlockLedger.Proofs.Tree.Binding

/-!
# Accepted proofs speak of leaves of the tree

Suppose a proof is accepted against the root of a tree, and no two different byte strings hashed for
the tree or for the replay have one digest. Tree and proof are then walked together from the root
down. The invariant of the walk (`InclusionProof.WellFormed.descend_eq_some`) is that the label of a
place of the proof is the hash of the subtree to which the digits of the place lead:

* a derived place and the subtree there have the same digest, so the subtree is an inner one and its
  children have the labels below the place (`Subtree.children_of_hash_eq`);
* a place that names a leaf and the subtree there have the same digest, so the subtree is a leaf with
  the payload at hand (`Subtree.leaf_of_hash_eq`).

The widths a proof claims take no part in this. The second statement ties its number of rows to the
height of the tree; the proof may still claim another number of leaves, and then the turns it makes to
the right may lead to the left (`InclusionProof.verify_sound`).
-/

namespace BlockLedger

/-! ### Places of the leaves at hand -/

/-- The payload of a leaf at hand comes after those of the earlier leaves with its identifier. -/
theorem payloadsOf_getElem? {held : List HeldLeaf} {i : Nat} {l : HeldLeaf}
    (h : held[i]? = some l) :
    (payloadsOf held l.1)[((held.take i).map (·.1)).count l.1]? = some l.2 := by
  induction held generalizing i with
  | nil => cases h
  | cons first rest ih =>
    cases i with
    | zero =>
      obtain rfl : first = l := by simpa using h
      rw [payloadsOf_cons_of_eq rfl]
      rfl
    | succ i =>
      rw [List.getElem?_cons_succ] at h
      rw [List.take_succ_cons, List.map_cons]
      -- the leaf in front counts only if it has the same identifier
      by_cases hid : first.1 = l.1
      · rw [payloadsOf_cons_of_eq hid, hid, List.count_cons_self, List.getElem?_cons_succ, ih h]
      · rw [payloadsOf_cons_of_ne hid, List.count_cons_of_ne hid, ih h]

namespace InclusionProof

variable {t : Tree} {r : Subtree} {p : InclusionProof} {held : List HeldLeaf}

/-- The position at which a proof places the leaf number `i` at hand: of the places that name its
identifier, the one that comes after as many others as there are earlier leaves with it. -/
def placeOf? (p : InclusionProof) (held : List HeldLeaf) (i : Nat) : Option Nat :=
  held[i]?.bind fun l => p.levels.head?.bind fun row =>
    (row.placesOf l.1)[((held.take i).map (·.1)).count l.1]?

/-- Each leaf at hand has a place, and the label there is the digest of its payload. -/
theorem WellFormed.exists_place (hwf : p.WellFormed held) {row : Level}
    (hrow : p.levels[0]? = some row) {i : Nat} {l : HeldLeaf} (hl : held[i]? = some l) :
    ∃ q, p.placeOf? held i = some q ∧ row.Has q ∧
      p.label held 0 q = some (.ofPayload l.2) := by
  have hb := payloadsOf_getElem? hl
  have hcount := hwf.leaves_match row (by rw [List.head?_eq_getElem?, hrow]) l.1
  have hlt := (List.getElem?_eq_some_iff.1 hb).1
  -- there are as many places for the identifier as leaves with it, so there is one for this leaf
  rw [length_payloadsOf, ← hcount, ← row.length_placesOf] at hlt
  have hq := List.getElem?_eq_getElem hlt
  obtain ⟨e, he, -, hpos⟩ := mem_placesIn.1 (List.getElem_mem hlt)
  refine ⟨_, ?_, ⟨e, he, hpos⟩, (labels_label hwf).leaf row hrow l.1 _ _ _ hq hb⟩
  rw [placeOf?, hl, Option.bind_some, List.head?_eq_getElem?, hrow, Option.bind_some, hq]

/-! ### The walk -/

/-- **The walk from the root down.** The digits of a place of the proof lead to a subtree of the tree
whose hash is the label of the place. -/
theorem WellFormed.descend_eq_some (hwf : p.WellFormed held)
    (hno : ¬ Clash (t.hashed ++ p.hashed held)) (hr : t.root? = some r)
    (htop : p.label held (p.levels.length - 1) 0 = some r.hash) {d k : Nat}
    (hd : d + (k + 1) = p.levels.length) {row : Level} (hrow : p.levels[k]? = some row) {q : Nat}
    (hq : row.Has q) :
    ∃ s, r.descend (turnsTo d q) = some s ∧ s.Sound ∧ (∀ x ∈ s.hashed, x ∈ t.hashed) ∧
      p.label held k q = some s.hash := by
  induction d generalizing k row q with
  | zero =>
    obtain rfl : k = p.levels.length - 1 := by omega
    obtain ⟨top, e, hlast, hes, hzero, -⟩ := hwf.top
    rw [hrow] at hlast
    cases hlast
    obtain ⟨e', he', rfl⟩ := hq
    rw [hes, List.mem_singleton] at he'
    rw [he', hzero, htop]
    exact ⟨r, rfl, Tree.sound_at? (Tree.at?_of_root? hr), by rw [Tree.hashed_of_root? hr]; simp, rfl⟩
  | succ d ih =>
    obtain ⟨e₀, he₀, rfl⟩ := hq
    -- the place above uses this one, so it is derived and the walk has passed it
    have hlt : k + 1 < p.levels.length := by omega
    obtain ⟨above, habove⟩ : ∃ above, p.levels[k + 1]? = some above :=
      ⟨_, List.getElem?_eq_getElem hlt⟩
    obtain ⟨e, he, hpos, hs⟩ := Level.derives_iff.1 (hwf.used k row above hrow habove e₀ he₀)
    obtain ⟨s, hway, hsound, hhashed, hlabel⟩ := ih (k := k + 1) (by omega) habove ⟨e, he, rfl⟩
    obtain ⟨left, right, hleft, hright, hpair, hin⟩ := hwf.exists_pair hrow habove he hs
    rw [hlabel, Option.some.injEq] at hpair
    -- so the subtree that has been reached has two children, with the labels below the place
    obtain ⟨a, b, ha, hb, hal, hbr⟩ := Subtree.children_of_hash_eq hno hsound
      (fun x hx => List.mem_append_left _ (hhashed x hx)) (List.mem_append_right _ hin) hpair
    rw [hpos] at hway hleft hright
    rw [turnsTo_succ, Subtree.descend_concat hway]
    rcases eq_left_or_eq_right e₀.position with hq | hq
    · refine ⟨a, ?_, hsound.child ha, fun x hx => hhashed x (Subtree.mem_hashed_of_child ha hx), ?_⟩
      · rw [hq, testBit_zero_left, ha]
      · rw [hq, hleft, hal]
    · -- a place on the right lies within the row, so its label is the second of the pair
      have hwidth : 2 * (e₀.position / 2) + 1 < row.width := by
        rw [← hq]
        exact (hwf.ordered_at hrow).2 e₀ he₀
      rw [rightBelow_of_lt hwidth] at hright
      refine ⟨b, ?_, hsound.child hb, fun x hx => hhashed x (Subtree.mem_hashed_of_child hb hx), ?_⟩
      · rw [hq, testBit_zero_right, hb]
      · rw [hq, hright, hbr]

/-- A walk that ends with the digest of a payload has gone through all rows of the tree, and has come
to a leaf with this payload. -/
theorem leaf_of_descend {inputs : List Bytes} (hno : ¬ Clash inputs) (hr : t.root? = some r)
    {d q : Nat} {s : Subtree} (hway : r.descend (turnsTo d q) = some s) (hsound : s.Sound)
    (hhashed : ∀ x ∈ s.hashed, x ∈ inputs) {b : Bytes} (hin : Digest.payloadInput b ∈ inputs)
    (h : s.hash = .ofPayload b) :
    d + 1 = t.height ∧ ∃ leaf, t.leafToward? q = some leaf ∧ leaf ∈ t.leaves ∧
      leaf.payload = b := by
  obtain ⟨i, leaf, rfl, hpayload⟩ := Subtree.leaf_of_hash_eq hno hsound hhashed hin h
  have hroot := Tree.at?_of_root? hr
  obtain ⟨k, hk, hleaf⟩ := (Tree.hasHeight_at? hroot).descend hway
  have hheight := Tree.height_pos_of_root? hr
  -- a leaf has height zero, so the turns make up the whole height of the root
  cases hleaf
  rw [length_turnsTo, Nat.zero_add] at hk
  refine ⟨by omega, leaf, ?_, ?_, hpayload⟩
  · have halong := Subtree.leafAlong_of_descend hway []
    rw [List.append_nil] at halong
    rw [Tree.leafToward?, hr, Option.map_some, hk, halong]
    rfl
  · exact List.mem_of_getElem? (Tree.leaf?_of_descend hr hway)

/-- The walk to the place of a leaf at hand. -/
theorem WellFormed.leaf_of_held (hwf : p.WellFormed held) (hno : ¬ Clash (t.hashed ++ p.hashed held))
    (hr : t.root? = some r) (htop : p.label held (p.levels.length - 1) 0 = some r.hash) {i : Nat}
    {l : HeldLeaf} (hl : held[i]? = some l) :
    p.levels.length = t.height ∧ ∃ q leaf, p.placeOf? held i = some q ∧ q < p.leafCount ∧
      t.leafToward? q = some leaf ∧ leaf ∈ t.leaves ∧ leaf.payload = l.2 := by
  obtain ⟨row, ls, hlevels⟩ := hwf.shaped.exists_levels
  have hrow : p.levels[0]? = some row := by rw [hlevels, List.getElem?_cons_zero]
  have hlen : p.levels.length - 1 + (0 + 1) = p.levels.length := by
    rw [hlevels, List.length_cons]
    rfl
  have hwidth : p.leafCount = row.width := by
    rw [leafCount, hlevels, List.head?_cons, Option.map_some, Option.getD_some]
  obtain ⟨q, hq, ⟨e, he, rfl⟩, hlabel⟩ := hwf.exists_place hrow hl
  obtain ⟨s, hway, hsound, hhashed, hs⟩ :=
    hwf.descend_eq_some hno hr htop hlen hrow ⟨e, he, rfl⟩
  rw [hlabel, Option.some.injEq] at hs
  have hin : Digest.payloadInput l.2 ∈ p.hashed held :=
    payloadInput_mem_hashed (List.mem_of_getElem? hl)
  obtain ⟨hheight, leaf, htoward, hmem, hpayload⟩ := leaf_of_descend hno hr hway hsound
    (fun x hx => List.mem_append_left _ (hhashed x hx)) (List.mem_append_right _ hin) hs.symm
  refine ⟨by omega, e.position, leaf, hq, ?_, htoward, hmem, hpayload⟩
  rw [hwidth]
  exact (hwf.ordered_at hrow).2 e he

/-- **Accepted proofs speak of leaves of the tree**, unless two different byte strings hashed for the
tree or for the replay have one digest. A proof that is accepted has as many rows as the tree, and
each payload at hand is that of the leaf to which the digits of its position lead. If the proof also
claims the right number of leaves, that leaf stands at the position itself. -/
theorem verify_sound {root : Digest} (hroot : t.rootHash? = some root)
    (h : p.verify root held = .ok true) :
    Clash (t.hashed ++ p.hashed held) ∨
      (p.levels.length = t.height ∧
        ∀ i l, held[i]? = some l → ∃ q leaf, p.placeOf? held i = some q ∧
          t.leafToward? q = some leaf ∧ leaf ∈ t.leaves ∧ leaf.payload = l.2 ∧
          (p.leafCount = t.leafCount → t.leaf? q = some leaf)) := by
  by_cases hclash : Clash (t.hashed ++ p.hashed held)
  · exact .inl hclash
  refine .inr ?_
  obtain ⟨r, hr, rfl⟩ := Option.map_eq_some_iff.1 hroot
  obtain ⟨hwf, d, htop, heq⟩ := verify_eq_ok_iff.1 h
  obtain rfl : d = r.hash := of_decide_eq_true heq.symm
  -- some leaf is at hand, and the walk to it goes through all rows
  obtain ⟨l₀, hl₀⟩ := List.exists_mem_of_ne_nil held hwf.held_ne_nil
  obtain ⟨i₀, hi₀⟩ := List.mem_iff_getElem?.1 hl₀
  refine ⟨(hwf.leaf_of_held hclash hr htop hi₀).1, fun i l hl => ?_⟩
  obtain ⟨-, q, leaf, hq, hlt, htoward, hmem, hpayload⟩ := hwf.leaf_of_held hclash hr htop hl
  refine ⟨q, leaf, hq, htoward, hmem, hpayload, fun hcount => ?_⟩
  rw [← Tree.leafToward?_eq_leaf? (hcount ▸ hlt), htoward]

/-- The proof for the first of two leaves, against the root of the tree of both. -/
theorem verify_sound_first :
    let t := Tree.build [("a", [1]), ("b", [2])]
    let p : InclusionProof := ⟨[⟨2, [⟨0, .leaf "a"⟩, ⟨1, .supplied (.ofPayload [2])⟩]⟩,
      ⟨1, [⟨0, .derived⟩]⟩]⟩
    let root := Digest.ofPair (.ofPayload [1]) (.ofPayload [2])
    t.rootHash? = some root ∧ p.verify root [("a", [1])] = .ok true ∧
      (Clash (t.hashed ++ p.hashed [("a", [1])]) ∨
        (p.levels.length = t.height ∧
          ∀ i l, [("a", [1])][i]? = some l → ∃ q leaf, p.placeOf? [("a", [1])] i = some q ∧
            t.leafToward? q = some leaf ∧ leaf ∈ t.leaves ∧ leaf.payload = l.2 ∧
            (p.leafCount = t.leafCount → t.leaf? q = some leaf))) := by
  intro t p root
  have hroot : t.rootHash? = some root := by
    simp [t, root, Tree.rootHash?, Tree.root?, Tree.build, Tree.ofLeaves, rowsOver, rowsFrom,
      leafRow, rowAbove, pairUp, Leaf.of]
  have hreplay : p.replay [("a", [1])] = .ok root := rfl
  have hverify : p.verify root [("a", [1])] = .ok true := by
    rw [verify, hreplay]
    exact congrArg Except.ok (decide_eq_true rfl)
  exact ⟨hroot, hverify, verify_sound hroot hverify⟩

end InclusionProof

end BlockLedger
