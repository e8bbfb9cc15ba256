import BlockLedger.Proofs.Replay.Acceptance
import BlockLedger.Proofs.Request.Marks

/-!
# Generated proofs are accepted

A generated proof speaks of the leaves at some positions, and of the digests that stand beside the
ways from them to the root. Neither depends on the payloads at these positions. So the proof stays
good when just these payloads change, for the tree with the new payloads:

* `Tree.hashAt?_eq_of_not_marked`: the two trees have the same digests at all unmarked places, and
  all digests a generated proof carries are of such places;
* `Tree.wellFormed_proofAt`: the proof is well-formed with the leaves at the positions;
* `Tree.labels_proofAt`: the digests of the new tree are the labels of the proof;
* `Tree.prove_complete`: hence the proof gives the root of the new tree.

The last statement is about lists of items. The tree does not occur in its hypotheses.
-/

namespace BlockLedger

/-- Digests above are equal if those below are. -/
theorem digestAbove_congr {width q : Nat} {f g : Nat → Option Digest} (hleft : f (2 * q) = g (2 * q))
    (hright : f (2 * q + 1) = g (2 * q + 1)) : digestAbove width f q = digestAbove width g q := by
  have hboth : f (rightBelow width q) = g (rightBelow width q) := by
    rw [rightBelow]
    split
    · exact hright
    · exact hleft
  rw [digestAbove, digestAbove, hleft, hboth]

/-- The digests of a tree at the places of a proof. -/
def InclusionProof.hashesOf (p : InclusionProof) (u : Tree) (k q : Nat) : Option Digest :=
  p.levels[k]?.bind fun l => (l.entryAt? q).bind fun _ => u.hashAt? k q

namespace InclusionProof

variable {p : InclusionProof} {u : Tree} {k q : Nat}

theorem hashesOf_of_has {l : Level} (hl : p.levels[k]? = some l) (hq : l.Has q) :
    p.hashesOf u k q = u.hashAt? k q := by
  have hentry : l.entryAt? q ≠ none := fun hnone => Level.entryAt?_eq_none.1 hnone hq
  obtain ⟨e, he⟩ := Option.ne_none_iff_exists'.1 hentry
  rw [hashesOf, hl, Option.bind_some, he, Option.bind_some]

theorem hashesOf_of_absent (h : ∀ l, p.levels[k]? = some l → ¬ l.Has q) :
    p.hashesOf u k q = none := by
  rw [hashesOf]
  cases hl : p.levels[k]? with
  | none => rfl
  | some l => rw [Option.bind_some, Level.entryAt?_eq_none.2 (h l hl), Option.bind_none]

theorem hashAt?_of_hashesOf {d : Digest} (h : p.hashesOf u k q = some d) :
    u.hashAt? k q = some d := by
  obtain ⟨l, -, h⟩ := Option.bind_eq_some_iff.1 h
  obtain ⟨e, -, h⟩ := Option.bind_eq_some_iff.1 h
  exact h

end InclusionProof

theorem Slot.leafId?_eq_some {s : Slot} {id : String} (h : s.leafId? = some id) : s = .leaf id := by
  cases s with
  | leaf other =>
    cases h
    rfl
  | derived => cases h
  | supplied d => cases h

namespace Tree

/-! ### Two trees and the leaves at hand -/

/-- Every one of the positions holds the first leaf with its identifier. -/
def FirstPositions (t : Tree) (positions : List Nat) : Prop :=
  ∀ q ∈ positions, ∃ leaf, t.leaves[q]? = some leaf ∧ t.positionOf? leaf.id = some q

/-- Two trees have the same identifiers, and the same leaves except at some positions. -/
structure AgreeOutside (t u : Tree) (positions : List Nat) : Prop where
  ids : u.leaves.map Leaf.id = t.leaves.map Leaf.id
  rest : ∀ q, q ∉ positions → u.leaves[q]? = t.leaves[q]?

/-- The leaves at hand are those of a tree at some positions, in any order. -/
structure HeldAt (u : Tree) (positions : List Nat) (held : List HeldLeaf) : Prop where
  nodup : (held.map (·.1)).Nodup
  mem : ∀ l, l ∈ held ↔
    ∃ q ∈ positions, ∃ leaf, u.leaves[q]? = some leaf ∧ l = (leaf.id, leaf.payload)

variable {t u : Tree} {positions : List Nat} {held : List HeldLeaf}

theorem AgreeOutside.leafCount_eq (h : AgreeOutside t u positions) : u.leafCount = t.leafCount := by
  have hlen := congrArg List.length h.ids
  rwa [List.length_map, List.length_map] at hlen

/-- A leaf of one tree has a leaf of the other at its position, with the same identifier. -/
theorem AgreeOutside.exists_leaf (h : AgreeOutside t u positions) {q : Nat} {leaf : Leaf}
    (hleaf : t.leaves[q]? = some leaf) : ∃ leaf', u.leaves[q]? = some leaf' ∧ leaf'.id = leaf.id := by
  have hids := congrArg (fun ids => ids[q]?) h.ids
  simp only [List.getElem?_map, hleaf, Option.map_some] at hids
  exact Option.map_eq_some_iff.1 hids

theorem AgreeOutside.id_eq (h : AgreeOutside t u positions) {q : Nat} {leaf leaf' : Leaf}
    (hleaf : t.leaves[q]? = some leaf) (hleaf' : u.leaves[q]? = some leaf') :
    leaf'.id = leaf.id := by
  obtain ⟨other, hother, hid⟩ := h.exists_leaf hleaf
  rw [hleaf'] at hother
  cases hother
  exact hid

/-- Leaves with one identifier stand at one position. -/
theorem FirstPositions.eq_of_id_eq (h : t.FirstPositions positions) {i j : Nat} {a b : Leaf}
    (hi : i ∈ positions) (hj : j ∈ positions) (ha : t.leaves[i]? = some a)
    (hb : t.leaves[j]? = some b) (hid : a.id = b.id) : i = j := by
  obtain ⟨a', ha', hfirst⟩ := h i hi
  obtain ⟨b', hb', hfirst'⟩ := h j hj
  rw [ha] at ha'
  rw [hb] at hb'
  cases ha'
  cases hb'
  rw [hid, hfirst'] at hfirst
  exact (Option.some.inj hfirst).symm

theorem FirstPositions.lt_leafCount (h : t.FirstPositions positions) {q : Nat} (hq : q ∈ positions) :
    q < t.leafCount := by
  obtain ⟨leaf, hleaf, -⟩ := h q hq
  exact (List.getElem?_eq_some_iff.1 hleaf).1

/-! ### Unmarked places -/

/-- **Digests that stay.** Where nothing is marked, trees that differ only at the positions asked for
have the same digest. -/
theorem hashAt?_eq_of_not_marked (h : AgreeOutside t u positions) {k q : Nat} (hk : k < t.height)
    (hm : ¬ t.Marked positions k q) : u.hashAt? k q = t.hashAt? k q := by
  induction k generalizing q with
  | zero =>
    rw [hashAt?_zero, hashAt?_zero]
    by_cases hq : q < t.leafCount
    · rw [h.rest q fun hmem => hm (marked_zero.2 ⟨hmem, hq⟩)]
    · -- behind the last leaf of either tree
      have ht : t.leaves.length ≤ q := Nat.not_lt.1 hq
      have hu : u.leafCount ≤ q := h.leafCount_eq.trans_le ht
      rw [List.getElem?_eq_none hu, List.getElem?_eq_none ht]
  | succ k ih =>
    have hk' : k < t.height := Nat.lt_of_succ_lt hk
    have hleft : ¬ t.Marked positions k (2 * q) := fun hl => hm (marked_succ.2 (.inl hl))
    have hright : ¬ t.Marked positions k (2 * q + 1) := fun hr => hm (marked_succ.2 (.inr hr))
    -- neither place below is marked, and both trees have the same width there
    rw [hashAt?_succ hk, hashAt?_succ (height_congr h.leafCount_eq ▸ hk), width_congr h.leafCount_eq]
    exact digestAbove_congr (ih hk' hleft) (ih hk' hright)

/-! ### The proof is well-formed -/

/-- The lowest row names the identifiers at the positions. -/
theorem mem_leafIds_proofAt {l : Level} (hl : (t.proofAt positions).levels[0]? = some l)
    {id : String} :
    id ∈ l.leafIds ↔ ∃ q ∈ positions, ∃ leaf, t.leaves[q]? = some leaf ∧ leaf.id = id := by
  rw [Level.leafIds, List.mem_filterMap]
  refine ⟨?_, ?_⟩
  · rintro ⟨e, he, hid⟩
    have hs := Slot.leafId?_eq_some hid
    obtain ⟨hmem, leaf, hleaf, hid⟩ := (leaf_mem_proofAt hl hs).1 he
    exact ⟨e.position, hmem, leaf, hleaf, hid⟩
  · rintro ⟨q, hq, leaf, hleaf, hid⟩
    have he := (leaf_mem_proofAt hl (e := ⟨q, .leaf id⟩) rfl).2 ⟨hq, leaf, hleaf, hid⟩
    exact ⟨_, he, rfl⟩

theorem nodup_leafIds_proofAt (hfirst : t.FirstPositions positions) {l : Level}
    (hl : (t.proofAt positions).levels[0]? = some l) : l.leafIds.Nodup := by
  obtain ⟨-, hlevel⟩ := level_proofAt hl
  have hord : l.Ordered := by
    rw [hlevel]
    exact ordered_levelFor _ _
  rw [Level.leafIds, List.nodup_iff_pairwise_ne, List.pairwise_filterMap]
  refine hord.1.imp_of_mem fun {a b} ha hb hlt id hida id' hidb heq => ?_
  -- two places for one identifier would be one position
  obtain ⟨hpa, leafa, hleafa, rfl⟩ := (leaf_mem_proofAt hl (Slot.leafId?_eq_some hida)).1 ha
  obtain ⟨hpb, leafb, hleafb, rfl⟩ := (leaf_mem_proofAt hl (Slot.leafId?_eq_some hidb)).1 hb
  exact Nat.ne_of_lt hlt (hfirst.eq_of_id_eq hpa hpb hleafa hleafb heq)

/-- The identifiers at hand are those at the positions. -/
theorem mem_ids_of_heldAt (hagree : AgreeOutside t u positions) (hfirst : t.FirstPositions positions)
    (hheld : u.HeldAt positions held) {id : String} :
    id ∈ held.map (·.1) ↔ ∃ q ∈ positions, ∃ leaf, t.leaves[q]? = some leaf ∧ leaf.id = id := by
  rw [List.mem_map]
  refine ⟨?_, ?_⟩
  · rintro ⟨l, hl, rfl⟩
    obtain ⟨q, hq, leaf', hleaf', rfl⟩ := (hheld.mem l).1 hl
    obtain ⟨leaf, hleaf, -⟩ := hfirst q hq
    exact ⟨q, hq, leaf, hleaf, (hagree.id_eq hleaf hleaf').symm⟩
  · rintro ⟨q, hq, leaf, hleaf, rfl⟩
    obtain ⟨leaf', hleaf', hid⟩ := hagree.exists_leaf hleaf
    exact ⟨(leaf'.id, leaf'.payload), (hheld.mem _).2 ⟨q, hq, leaf', hleaf', rfl⟩, hid⟩

/-- Leaves stand in the lowest row, derived digests above it. -/
theorem fitting_proofAt {k : Nat} {l : Level} (hl : (t.proofAt positions).levels[k]? = some l)
    {e : Entry} (he : e ∈ l.entries) : e.slot.FitsLevel k := by
  obtain ⟨s, hat, ⟨-, hslot⟩ | ⟨-, -, hslot⟩⟩ := (mem_entries_proofAt hl).1 he
  · rw [hslot]
    cases k with
    | zero =>
      obtain ⟨leaf, -, hleaf⟩ := slot_of_at?_zero hat
      rw [hleaf]
      exact rfl
    | succ k =>
      rw [slot_of_at?_succ hat]
      exact Nat.succ_pos k
  · rw [hslot]
    exact trivial

/-- The lowest row names as many leaves with an identifier as are at hand. -/
theorem leaves_match_proofAt (hfirst : t.FirstPositions positions)
    (hagree : AgreeOutside t u positions) (hheld : u.HeldAt positions held) {l : Level}
    (hl : (t.proofAt positions).levels[0]? = some l) (id : String) :
    l.countLeaf id = (held.map (·.1)).count id := by
  -- both lists of identifiers are without repetitions, so it is enough that they have the same
  have hperm : l.leafIds.Perm (held.map (·.1)) := by
    rw [List.perm_ext_iff_of_nodup (nodup_leafIds_proofAt hfirst hl) hheld.nodup]
    intro id
    rw [mem_leafIds_proofAt hl, mem_ids_of_heldAt hagree hfirst hheld]
  exact hperm.count_eq id

/-- What stands in a row is used in the row above: above a marked place and above its sibling there
is one marked place. -/
theorem used_proofAt {k : Nat} {below above : Level}
    (hb : (t.proofAt positions).levels[k]? = some below)
    (ha : (t.proofAt positions).levels[k + 1]? = some above) : below.Used above := by
  intro e he
  obtain ⟨-, hm⟩ := (has_proofAt hb).1 ⟨e, he, rfl⟩
  -- both siblings are below the same place, whichever of them is marked
  have hup : t.Marked positions (k + 1) (e.position / 2) := by
    rcases hm with hm | hm
    · exact hm.half
    · rw [← sibling_div_two]
      exact hm.half
  have hderived := (derived_mem_proofAt ha (e := ⟨e.position / 2, .derived⟩) rfl).2 hup
  exact Level.derives_iff.2 ⟨_, hderived, rfl, rfl⟩

/-- What is derived in a row finds both its children in the row below. -/
theorem fed_proofAt {k : Nat} {below above : Level}
    (hb : (t.proofAt positions).levels[k]? = some below)
    (ha : (t.proofAt positions).levels[k + 1]? = some above) : below.Fed above := by
  intro e he hs
  have hk : k + 1 < t.height := (level_proofAt ha).1
  have hm : t.Marked positions (k + 1) e.position := (derived_mem_proofAt ha hs).1 he
  have hlt := hm.lt_width hk
  rw [width_succ hk] at hlt
  -- one of the two places below is marked, so each of them is marked or beside a marked one
  have hbelow := marked_succ.1 hm
  refine ⟨(has_proofAt hb).2 ⟨by omega, ?_⟩, fun hright => (has_proofAt hb).2 ⟨?_, ?_⟩⟩
  · rw [sibling_left]
    exact hbelow
  · rwa [← width_level_proofAt hb]
  · rw [sibling_right]
    exact hbelow.symm

/-- **A generated proof is well-formed** with the leaves at the positions it was made for. -/
theorem wellFormed_proofAt (hne : positions ≠ []) (hfirst : t.FirstPositions positions)
    (hagree : AgreeOutside t u positions) (hheld : u.HeldAt positions held) :
    (t.proofAt positions).WellFormed held := by
  obtain ⟨q₀, hq₀⟩ := List.exists_mem_of_ne_nil positions hne
  obtain ⟨leaf₀, hleaf₀, -⟩ := hfirst q₀ hq₀
  have hheight : 0 < t.height := height_pos (List.ne_nil_of_mem (List.mem_of_getElem? hleaf₀))
  have hlen := length_levels_proofAt t positions
  have hid : leaf₀.id ∈ held.map (·.1) :=
    (mem_ids_of_heldAt hagree hfirst hheld).2 ⟨q₀, hq₀, leaf₀, hleaf₀, rfl⟩
  exact
    { held_ne_nil := fun hnil => by
        rw [hnil] at hid
        cases hid
      levels_ne_nil := by
        rw [← List.length_pos_iff, hlen]
        exact hheight
      width_pos := fun l hl => by
        rw [List.head?_eq_getElem?] at hl
        rw [width_level_proofAt hl, width_zero]
        exact Nat.zero_lt_of_lt (hfirst.lt_leafCount hq₀)
      width_halves := fun k below above hb ha => by
        have hk : k + 1 < t.height := (level_proofAt ha).1
        rw [width_level_proofAt hb, width_level_proofAt ha]
        exact ⟨Nat.ne_of_gt (one_lt_width hk), width_succ hk⟩
      width_last := fun l hl => by
        rw [List.getLast?_eq_getElem?, hlen] at hl
        rw [width_level_proofAt hl]
        exact width_last hheight
      ordered := fun l hl => by
        obtain ⟨k, hk⟩ := List.mem_iff_getElem?.1 hl
        rw [(level_proofAt hk).2]
        exact ordered_levelFor _ _
      fitting := fun _ _ hl _ he => fitting_proofAt hl he
      leaves_match := fun l hl => by
        rw [List.head?_eq_getElem?] at hl
        exact leaves_match_proofAt hfirst hagree hheld hl
      used := fun _ _ _ hb ha => used_proofAt hb ha
      fed := fun _ _ _ hb ha => fed_proofAt hb ha }

/-! ### The labels of the proof -/

/-- A leaf at hand that has the identifier of a position is the leaf of that position. -/
theorem payload_of_heldAt (hfirst : t.FirstPositions positions) (hagree : AgreeOutside t u positions)
    (hheld : u.HeldAt positions held) {q : Nat} {leaf : Leaf} {b : Bytes} (hq : q ∈ positions)
    (hleaf : t.leaves[q]? = some leaf) (hb : (leaf.id, b) ∈ held) :
    u.hashAt? 0 q = some (.ofPayload b) := by
  obtain ⟨i, hi, leaf', hleaf', heq⟩ := (hheld.mem _).1 hb
  obtain ⟨hid, rfl⟩ := Prod.mk.inj heq
  obtain ⟨old, hold, -⟩ := hfirst i hi
  -- both positions hold the first leaf with this identifier, so they are one position
  have hsame : leaf.id = old.id := hid.trans (hagree.id_eq hold hleaf')
  obtain rfl : q = i := hfirst.eq_of_id_eq hq hi hleaf hold hsame
  rw [hashAt?_zero, hleaf', Option.map_some, leaf'.hash_eq]

/-- **The labels of a generated proof** are the digests of the tree with the payloads at hand. -/
theorem labels_proofAt (hfirst : t.FirstPositions positions) (hagree : AgreeOutside t u positions)
    (hheld : u.HeldAt positions held) :
    (t.proofAt positions).Labels held ((t.proofAt positions).hashesOf u) where
  leaf l hl id j q b hj hb := by
    obtain ⟨e, he, hs, rfl⟩ := mem_placesIn.1 (List.mem_of_getElem? hj)
    obtain ⟨hmem, leaf, hleaf, rfl⟩ := (leaf_mem_proofAt hl hs).1 he
    rw [InclusionProof.hashesOf_of_has hl ⟨e, he, rfl⟩]
    exact payload_of_heldAt hfirst hagree hheld hmem hleaf
      (mem_payloadsOf.1 (List.mem_of_getElem? hb))
  supplied k l hl e he d hs := by
    -- the proof carries the digest of the old tree, which the new one has as well
    obtain ⟨hm, hd⟩ := supplied_mem_proofAt hl hs he
    rw [InclusionProof.hashesOf_of_has hl ⟨e, he, rfl⟩,
      hashAt?_eq_of_not_marked hagree (level_proofAt hl).1 hm, hd]
  derived k below above hb ha e he hs left right hleft hright := by
    have hk : k + 1 < u.height := height_congr hagree.leafCount_eq ▸ (level_proofAt ha).1
    rw [width_level_proofAt hb, ← width_congr hagree.leafCount_eq] at hright
    rw [InclusionProof.hashesOf_of_has ha ⟨e, he, rfl⟩, hashAt?_succ hk]
    exact digestAbove_eq_some_iff.2 ⟨left, right, InclusionProof.hashAt?_of_hashesOf hleft,
      InclusionProof.hashAt?_of_hashesOf hright, rfl⟩
  absent k q h := InclusionProof.hashesOf_of_absent h

/-- A generated proof gives the root of the tree with the payloads at hand. -/
theorem verify_proofAt (hne : positions ≠ []) (hfirst : t.FirstPositions positions)
    (hagree : AgreeOutside t u positions) (hheld : u.HeldAt positions held) :
    ∃ root, u.rootHash? = some root ∧ (t.proofAt positions).verify root held = .ok true := by
  have hwf := wellFormed_proofAt hne hfirst hagree hheld
  -- there is only one labelling, so the checker finds the digests of the new tree
  have hlabel : (t.proofAt positions).label held = (t.proofAt positions).hashesOf u :=
    (InclusionProof.labels_label hwf).unique hwf (labels_proofAt hfirst hagree hheld)
  obtain ⟨d, hd⟩ := hwf.exists_top_label
  -- the label of the top is the digest of the last row, and the root stands there
  have htop : u.hashAt? (u.height - 1) 0 = some d := by
    rw [height_congr hagree.leafCount_eq, ← length_levels_proofAt t positions]
    rw [hlabel] at hd
    exact InclusionProof.hashAt?_of_hashesOf hd
  have hheight : 0 < u.height := by
    rw [height_congr hagree.leafCount_eq, ← length_levels_proofAt t positions, List.length_pos_iff]
    exact hwf.levels_ne_nil
  exact ⟨d, by rw [rootHash?_eq_hashAt? hheight, htop],
    InclusionProof.verify_eq_ok_iff.2 ⟨hwf, d, hd, by simp⟩⟩

/-! ### Requests by identifier -/

theorem exists_leaf_of_positionOf? {id : String} {q : Nat} (h : t.positionOf? id = some q) :
    ∃ leaf, t.leaves[q]? = some leaf ∧ leaf.id = id := by
  obtain ⟨hlt, hid, -⟩ := List.findIdx?_eq_some_iff_getElem.1 h
  exact ⟨_, List.getElem?_eq_getElem hlt, by simpa using hid⟩

theorem firstPositions_of_ids (t : Tree) (ids : List String) :
    t.FirstPositions (ids.filterMap t.positionOf?) := by
  intro q hq
  obtain ⟨id, -, hid⟩ := List.mem_filterMap.1 hq
  obtain ⟨leaf, hleaf, rfl⟩ := exists_leaf_of_positionOf? hid
  exact ⟨leaf, hleaf, hid⟩

/-- A request that is not empty and names only leaves of the tree has a proof. -/
theorem prove_eq_ok {ids : List String} (hne : ids ≠ [])
    (hin : ∀ id ∈ ids, id ∈ t.leaves.map Leaf.id) :
    t.prove ids = .ok (t.proofAt (ids.filterMap t.positionOf?)) := by
  have hleaves : t.leaves ≠ [] := by
    intro hnil
    obtain ⟨id, hid⟩ := List.exists_mem_of_ne_nil ids hne
    have hmem := hin id hid
    rw [hnil] at hmem
    cases hmem
  -- every identifier has a position, so no unknown one is found
  have hknown : ids.find? (fun id => (t.positionOf? id).isNone) = none := by
    rw [List.find?_eq_none]
    intro id hid
    obtain ⟨leaf, hleaf, rfl⟩ := List.mem_map.1 (hin id hid)
    rw [Bool.not_eq_true, Option.isNone_eq_false_iff, positionOf?, List.findIdx?_isSome,
      List.any_eq_true]
    exact ⟨leaf, hleaf, by simp⟩
  rw [prove, if_neg (by simpa [isEmpty] using hleaves), hknown]
  exact if_neg (by simpa using hne)

theorem ids_build (items : List (String × Bytes)) :
    (build items).leaves.map Leaf.id = items.map (·.1) := by
  rw [leaves_build, List.map_map]
  rfl

theorem getElem?_leaves_build (items : List (String × Bytes)) (q : Nat) :
    (build items).leaves[q]? = items[q]?.map fun i => Leaf.of i.1 i.2 := by
  rw [leaves_build, List.getElem?_map]

theorem positionOf?_build (items : List (String × Bytes)) (id : String) :
    (build items).positionOf? id = items.findIdx? (·.1 = id) := by
  rw [positionOf?, leaves_build, List.findIdx?_map]
  rfl

/-- The position of the first item with one of the given identifiers. -/
def Requested (items : List (String × Bytes)) (ids : List String) (i : Nat) : Prop :=
  ∃ id ∈ ids, items.findIdx? (·.1 = id) = some i

theorem mem_positions_build {items : List (String × Bytes)} {ids : List String} {i : Nat} :
    i ∈ ids.filterMap (build items).positionOf? ↔ Requested items ids i := by
  simp only [List.mem_filterMap, positionOf?_build, Requested]

theorem exists_requested {items : List (String × Bytes)} {ids : List String} (hne : ids ≠ [])
    (hin : ∀ id ∈ ids, id ∈ items.map (·.1)) : ∃ i, Requested items ids i := by
  obtain ⟨id, hid⟩ := List.exists_mem_of_ne_nil ids hne
  obtain ⟨item, hitem, rfl⟩ := List.mem_map.1 (hin id hid)
  have hsome : (items.findIdx? (·.1 = item.1)).isSome := by
    rw [List.findIdx?_isSome, List.any_eq_true]
    exact ⟨item, hitem, by simp⟩
  obtain ⟨i, hi⟩ := Option.isSome_iff_exists.1 hsome
  exact ⟨i, item.1, hid, hi⟩

/-- The items at the positions, in any order, are the leaves of their tree there. -/
theorem heldAt_build {items : List (String × Bytes)} {order : List Nat}
    (hfirst : t.FirstPositions positions) (hagree : AgreeOutside t (build items) positions)
    (hnodup : order.Nodup) (horder : ∀ i, i ∈ order ↔ i ∈ positions) :
    (build items).HeldAt positions (order.filterMap fun i => items[i]?) where
  nodup := by
    rw [List.nodup_iff_pairwise_ne, List.pairwise_map, List.pairwise_filterMap]
    refine hnodup.imp_of_mem fun {i j} hi hj hij a ha b hb hid => ?_
    rw [horder] at hi hj
    obtain ⟨a', ha', -⟩ := hfirst i hi
    obtain ⟨b', hb', -⟩ := hfirst j hj
    have hida := hagree.id_eq ha' (by rw [getElem?_leaves_build, ha, Option.map_some])
    have hidb := hagree.id_eq hb' (by rw [getElem?_leaves_build, hb, Option.map_some])
    -- items with one identifier would stand at one position of the first tree
    exact hij (hfirst.eq_of_id_eq hi hj ha' hb' (hida.symm.trans (hid.trans hidb)))
  mem l := by
    rw [List.mem_filterMap]
    refine ⟨?_, ?_⟩
    · rintro ⟨i, hi, hl⟩
      exact ⟨i, (horder i).1 hi, .of l.1 l.2,
        by rw [getElem?_leaves_build, hl, Option.map_some], rfl⟩
    · rintro ⟨i, hi, leaf, hleaf, rfl⟩
      rw [getElem?_leaves_build] at hleaf
      obtain ⟨item, hitem, rfl⟩ := Option.map_eq_some_iff.1 hleaf
      exact ⟨i, (horder i).2 hi, hitem⟩

/-- **Every request has a proof, and the proof is accepted.** It is accepted also after the payloads
it was made for have changed, against the root of the tree with the new payloads, and with the leaves
at hand in any order. -/
theorem prove_complete (items : List (String × Bytes)) (ids : List String) (hne : ids ≠ [])
    (hin : ∀ id ∈ ids, id ∈ items.map (·.1)) :
    ∃ p, (build items).prove ids = .ok p ∧
      ∀ (updated : List (String × Bytes)) (order : List Nat),
        updated.map (·.1) = items.map (·.1) →
        (∀ i, ¬ Requested items ids i → updated[i]? = items[i]?) →
        order.Nodup → (∀ i, i ∈ order ↔ Requested items ids i) →
        ∃ root, (build updated).rootHash? = some root ∧
          p.verify root (order.filterMap fun i => updated[i]?) = .ok true := by
  have hprove := prove_eq_ok (t := build items) hne (by rwa [ids_build])
  refine ⟨_, hprove, fun updated order hids hrest hnodup horder => ?_⟩
  have hfirst := firstPositions_of_ids (build items) ids
  have hpositions : ids.filterMap (build items).positionOf? ≠ [] := by
    obtain ⟨i, hi⟩ := exists_requested hne hin
    exact List.ne_nil_of_mem (mem_positions_build.2 hi)
  have hagree : AgreeOutside (build items) (build updated)
      (ids.filterMap (build items).positionOf?) :=
    { ids := by rw [ids_build, ids_build, hids]
      rest := fun q hq => by
        rw [getElem?_leaves_build, getElem?_leaves_build,
          hrest q fun h => hq (mem_positions_build.2 h)] }
  have hheld := heldAt_build hfirst hagree hnodup
    fun i => (horder i).trans mem_positions_build.symm
  exact verify_proofAt hpositions hfirst hagree hheld

/-- The proof for the second of two items, after that item has changed. -/
theorem prove_complete_second :
    ∃ p root, (build [("a", [1]), ("b", [2])]).prove ["b"] = .ok p ∧
      (build [("a", [1]), ("b", [3])]).rootHash? = some root ∧
        p.verify root [("b", [3])] = .ok true := by
  have hrequested : ∀ i, Requested [("a", [1]), ("b", [2])] ["b"] i ↔ i = 1 := by
    intro i
    simp [Requested, List.findIdx?_cons, eq_comm]
  obtain ⟨p, hprove, hverify⟩ :=
    prove_complete [("a", [1]), ("b", [2])] ["b"] (by decide) (by decide)
  obtain ⟨root, hroot, htrue⟩ := hverify [("a", [1]), ("b", [3])] [1] (by decide)
    (fun i hi => by
      match i with
      | 0 => rfl
      | 1 => exact absurd ((hrequested 1).2 rfl) hi
      | i + 2 => rfl)
    (by decide) (fun i => by rw [hrequested, List.mem_singleton])
  exact ⟨p, root, hprove, hroot, htrue⟩

end Tree

end BlockLedger
