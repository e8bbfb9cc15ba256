import BlockLedger.Proofs.Replay.LeafRow
import BlockLedger.Proofs.Replay.Soundness
import Mathlib.Data.List.Nodup
import Mathlib.Data.List.Perm.Subperm

/-!
# How many leaves a proof can speak of

A root does not commit to the number of leaves: the last node of an odd row is joined with itself,
as if there were another one that reads the same. A proof may therefore claim another number of
leaves than the tree holds, and name the last leaf a second time under a position that the tree does
not have (`InclusionProof.verify_copy`).

What it claims is still bounded (`InclusionProof.verify_leafCount`). An accepted proof has as many
rows as the tree, and so the two numbers of leaves round up to the same power of two. Each position
the proof names stands for a leaf of the tree (`Tree.positionToward?`), which is the one at the
position itself if the tree has it (`Tree.positionToward?_of_lt`). So the proof can only speak twice
of a leaf where it claims more leaves than there are.
-/

namespace BlockLedger

/-! ### The leaf a number leads to -/

/-- The position of a leaf. -/
def Subtree.position? : Subtree → Option Nat
  | .leaf q _ => some q
  | .lone _ _ => none
  | .pair _ _ _ => none

/-- **The position that a number stands for**: that of the leaf to which its binary digits lead. -/
def Tree.positionToward? (t : Tree) (number : Nat) : Option Nat :=
  t.root?.bind fun r => (r.descend (turnsTo (t.height - 1) number)).bind Subtree.position?

/-- So many turns as there are rows below a subtree lead to a leaf. -/
theorem Subtree.HasHeight.exists_leaf {s : Subtree} {turns : List Bool}
    (h : s.HasHeight turns.length) : ∃ q leaf, s.descend turns = some (.leaf q leaf) := by
  induction turns generalizing s with
  | nil =>
    cases h with
    | leaf q leaf => exact ⟨q, leaf, rfl⟩
  | cons b turns ih =>
    -- a subtree above the leaves has a child for each turn
    obtain ⟨c, hc⟩ : ∃ c, s.child b = some c := by
      cases h with
      | lone => exact ⟨_, rfl⟩
      | pair => cases b <;> exact ⟨_, rfl⟩
    obtain ⟨q, leaf, hleaf⟩ := ih (h.child hc)
    exact ⟨q, leaf, by rw [Subtree.descend, hc, Option.bind_some, hleaf]⟩

namespace Tree

variable {t : Tree} {r : Subtree}

/-- Every number stands for a position of the tree, and its digits lead to the leaf there. -/
theorem exists_positionToward? (hr : t.root? = some r) (q : Nat) :
    ∃ q' leaf, t.positionToward? q = some q' ∧ t.leafToward? q = some leaf ∧
      t.leaf? q' = some leaf := by
  have hheight : r.HasHeight (turnsTo (t.height - 1) q).length := by
    rw [length_turnsTo]
    exact hasHeight_at? (at?_of_root? hr)
  obtain ⟨q', leaf, hway⟩ := hheight.exists_leaf
  refine ⟨q', leaf, ?_, ?_, ?_⟩
  · rw [positionToward?, hr, Option.bind_some, hway]
    rfl
  · have halong := Subtree.leafAlong_of_descend hway []
    rw [List.append_nil] at halong
    rw [leafToward?, hr, Option.map_some, halong]
    rfl
  · exact leaf?_of_descend hr hway

/-- **A position of the tree** stands for itself. -/
theorem positionToward?_of_lt (hr : t.root? = some r) {q : Nat} (h : q < t.leafCount) :
    t.positionToward? q = some q := by
  have hheight := height_pos_of_root? hr
  have hway := descend_turnsTo hr (d := t.height - 1) (k := 0) (by omega) (by rwa [width_zero])
  have hleaf : t.leaves[q]? = some t.leaves[q] := List.getElem?_eq_getElem h
  rw [at?_zero, hleaf, Option.map_some] at hway
  rw [positionToward?, hr, Option.bind_some, hway]
  rfl

end Tree

namespace InclusionProof

variable {t : Tree} {p : InclusionProof} {held : List HeldLeaf}

/-! ### Rows of a proof -/

/-- The number of leaves a proof claims tells its number of rows. -/
theorem WellFormed.clog_leafCount (h : p.WellFormed held) :
    Nat.clog 2 p.leafCount = p.levels.length - 1 :=
  h.shaped.clog_leafCount

/-- At most so many leaves are at hand as the proof claims. -/
theorem WellFormed.length_held_le (h : p.WellFormed held) : held.length ≤ p.leafCount := by
  obtain ⟨row, ls, hlevels⟩ := h.shaped.exists_levels
  have hrow : p.levels[0]? = some row := by rw [hlevels, List.getElem?_cons_zero]
  have hhead : p.levels.head? = some row := by rw [List.head?_eq_getElem?, hrow]
  have hcount : p.leafCount = row.width := by
    rw [leafCount, hhead, Option.map_some, Option.getD_some]
  -- the row names the leaves at hand, at positions that differ and lie within its width
  have hids : row.leafIds.Perm (held.map (·.1)) :=
    List.perm_iff_count.2 fun id => h.leaves_match row hhead id
  have hwithin : row.entries.map (·.position) ⊆ List.range row.width := by
    intro q hq
    obtain ⟨e, he, rfl⟩ := List.mem_map.1 hq
    exact List.mem_range.2 ((h.ordered_at hrow).2 e he)
  calc held.length = row.leafIds.length := by rw [hids.length_eq, List.length_map]
    _ ≤ row.entries.length := List.length_filterMap_le _ _
    _ = (row.entries.map (·.position)).length := (List.length_map _).symm
    _ ≤ (List.range row.width).length :=
      (List.Nodup.subperm (h.ordered_at hrow).nodup_positions hwithin).length_le
    _ = p.leafCount := by rw [List.length_range, hcount]

/-! ### Places of different leaves -/

/-- There are more of an element in front of a later place than in front of an earlier one where it
stands. -/
theorem count_take_lt {xs : List String} {a : String} {i j : Nat} (hi : xs[i]? = some a)
    (hij : i < j) : (xs.take i).count a < (xs.take j).count a := by
  have hle : (xs.take (i + 1)).count a ≤ (xs.take j).count a :=
    (List.take_sublist_take_left hij).count_le a
  rw [List.take_add_one, hi, List.count_append] at hle
  simp at hle
  omega

theorem placeOf?_eq_some_iff {row : Level} (hrow : p.levels[0]? = some row) {i q : Nat} :
    p.placeOf? held i = some q ↔ ∃ l, held[i]? = some l ∧
      (row.placesOf l.1)[((held.take i).map (·.1)).count l.1]? = some q := by
  rw [placeOf?, List.head?_eq_getElem?, hrow]
  exact Option.bind_eq_some_iff

/-- The places of leaves lie within the number of leaves that the proof claims. -/
theorem WellFormed.placeOf?_lt (h : p.WellFormed held) {i q : Nat}
    (hi : p.placeOf? held i = some q) : q < p.leafCount := by
  obtain ⟨row, ls, hlevels⟩ := h.shaped.exists_levels
  have hrow : p.levels[0]? = some row := by rw [hlevels, List.getElem?_cons_zero]
  obtain ⟨l, -, hq⟩ := (placeOf?_eq_some_iff hrow).1 hi
  obtain ⟨e, he, -, rfl⟩ := mem_placesIn.1 (List.mem_of_getElem? hq)
  rw [leafCount, List.head?_eq_getElem?, hrow]
  exact (h.ordered_at hrow).2 e he

/-- **Different leaves at hand** have different places. -/
theorem WellFormed.eq_of_placeOf?_eq (h : p.WellFormed held) {i j q : Nat}
    (hi : p.placeOf? held i = some q) (hj : p.placeOf? held j = some q) : i = j := by
  obtain ⟨row, ls, hlevels⟩ := h.shaped.exists_levels
  have hrow : p.levels[0]? = some row := by rw [hlevels, List.getElem?_cons_zero]
  have hordered := h.ordered_at hrow
  obtain ⟨l, hl, hq⟩ := (placeOf?_eq_some_iff hrow).1 hi
  obtain ⟨l', hl', hq'⟩ := (placeOf?_eq_some_iff hrow).1 hj
  -- one place names one identifier
  obtain ⟨e, he, hs, hposition⟩ := mem_placesIn.1 (List.mem_of_getElem? hq)
  obtain ⟨e', he', hs', hposition'⟩ := mem_placesIn.1 (List.mem_of_getElem? hq')
  obtain rfl : e = e' :=
    List.inj_on_of_nodup_map hordered.nodup_positions he he' (hposition.trans hposition'.symm)
  have hid : l.1 = l'.1 := by
    rw [hs] at hs'
    exact Slot.leaf.inj hs'
  -- and of the places that name it, no two are the same
  rw [← hid, ← hq] at hq'
  have hcounts := (List.getElem?_inj (List.getElem?_eq_some_iff.1 hq).1
    (hordered.nodup_placesOf l.1)).1 hq'.symm
  rw [List.map_take, List.map_take] at hcounts
  have hat : ∀ {i : Nat} {m : HeldLeaf}, held[i]? = some m → m.1 = l.1 →
      (held.map (·.1))[i]? = some l.1 := by
    intro i m hm heq
    rw [List.getElem?_map, hm, Option.map_some, heq]
  rcases Nat.lt_trichotomy i j with hlt | heq | hlt
  · exact absurd hcounts (Nat.ne_of_lt (count_take_lt (hat hl rfl) hlt))
  · exact heq
  · exact absurd hcounts.symm (Nat.ne_of_lt (count_take_lt (hat hl' hid.symm) hlt))

/-! ### Accepted proofs -/

/-- Numbers that round up to the same power of two are less than twice each other. -/
theorem lt_two_mul_of_clog_eq {a b : Nat} (hb : 0 < b) (h : Nat.clog 2 a = Nat.clog 2 b) :
    a < 2 * b := by
  have ha : a ≤ 2 ^ Nat.clog 2 a := Nat.le_pow_clog Nat.one_lt_two a
  rw [h] at ha
  rcases Nat.lt_or_ge 1 b with hlt | hle
  · have hpred := Nat.pow_pred_clog_lt_self Nat.one_lt_two hlt
    have hpos : 0 < Nat.clog 2 b := Nat.clog_pos Nat.one_lt_two hlt
    have hpow : 2 ^ Nat.clog 2 b = 2 * 2 ^ (Nat.clog 2 b).pred := by
      rw [← Nat.pow_succ', Nat.succ_pred_eq_of_pos hpos]
    omega
  · rw [Nat.clog_of_right_le_one hle, Nat.pow_zero] at ha
    omega

/-- The place of a leaf at hand stands for a leaf of the tree with its payload. -/
theorem WellFormed.exists_positionToward? (hwf : p.WellFormed held)
    (hno : ¬ Clash (t.hashed ++ p.hashed held)) {r : Subtree} (hr : t.root? = some r)
    (htop : p.label held (p.levels.length - 1) 0 = some r.hash) {i : Nat} {l : HeldLeaf}
    (hl : held[i]? = some l) :
    ∃ q q' leaf, p.placeOf? held i = some q ∧ q < p.leafCount ∧ t.positionToward? q = some q' ∧
      (q < t.leafCount → q' = q) ∧ t.leaf? q' = some leaf ∧ leaf.payload = l.2 := by
  obtain ⟨-, q, leaf, hq, hlt, htoward, -, hpayload⟩ := hwf.leaf_of_held hno hr htop hl
  obtain ⟨q', leaf', hq', htoward', hleaf⟩ := Tree.exists_positionToward? hr q
  rw [htoward, Option.some.injEq] at htoward'
  refine ⟨q, q', leaf, hq, hlt, hq', fun hin => ?_, by rw [htoward', hleaf], hpayload⟩
  rw [Tree.positionToward?_of_lt hr hin] at hq'
  exact (Option.some.inj hq').symm

/-- **How many leaves an accepted proof can speak of.** It has as many rows as the tree, the number
of leaves it claims rounds up to the same power of two as the true one, and it names no more leaves
than it claims, each at a place of its own. Each place stands for a leaf of the tree, with the
payload at hand; it is the leaf at the place itself if the tree has one there. So if the proof does
not claim too many leaves, it names no more than the tree holds, and different ones. All this holds
unless two different byte strings hashed for the tree or for the replay have one digest. -/
theorem verify_leafCount {root : Digest} (hroot : t.rootHash? = some root)
    (h : p.verify root held = .ok true) :
    Clash (t.hashed ++ p.hashed held) ∨
      (p.levels.length = t.height ∧
        Nat.clog 2 p.leafCount = Nat.clog 2 t.leafCount ∧ p.leafCount < 2 * t.leafCount ∧
        held.length ≤ p.leafCount ∧
        (∀ i l, held[i]? = some l → ∃ q q' leaf, p.placeOf? held i = some q ∧ q < p.leafCount ∧
          t.positionToward? q = some q' ∧ (q < t.leafCount → q' = q) ∧
          t.leaf? q' = some leaf ∧ leaf.payload = l.2) ∧
        (∀ i j q, p.placeOf? held i = some q → p.placeOf? held j = some q → i = j) ∧
        (p.leafCount ≤ t.leafCount → held.length ≤ t.leafCount ∧
          ∀ i j q q' s, p.placeOf? held i = some q → p.placeOf? held j = some q' →
            t.positionToward? q = some s → t.positionToward? q' = some s → i = j)) := by
  by_cases hclash : Clash (t.hashed ++ p.hashed held)
  · exact .inl hclash
  refine .inr ?_
  obtain ⟨r, hr, rfl⟩ := Option.map_eq_some_iff.1 hroot
  obtain ⟨hwf, d, htop, heq⟩ := verify_eq_ok_iff.1 h
  obtain rfl : d = r.hash := of_decide_eq_true heq.symm
  have hheight := Tree.height_pos_of_root? hr
  have hpos : 0 < t.leafCount :=
    List.length_pos_of_ne_nil (Tree.leaves_ne_nil_of_height_pos hheight)
  -- some leaf is at hand, and the walk to it goes through all rows
  obtain ⟨l₀, hl₀⟩ := List.exists_mem_of_ne_nil held hwf.held_ne_nil
  obtain ⟨i₀, hi₀⟩ := List.mem_iff_getElem?.1 hl₀
  have hrows : p.levels.length = t.height := (hwf.leaf_of_held hclash hr htop hi₀).1
  have hclog : Nat.clog 2 p.leafCount = Nat.clog 2 t.leafCount := by
    rw [hwf.clog_leafCount, hrows, Tree.clog_leafCount hheight]
  refine ⟨hrows, hclog, lt_two_mul_of_clog_eq hpos hclog, hwf.length_held_le,
    fun i l hl => hwf.exists_positionToward? hclash hr htop hl,
    fun i j q hi hj => hwf.eq_of_placeOf?_eq hi hj, fun hle => ?_⟩
  refine ⟨Nat.le_trans hwf.length_held_le hle, fun i j q q' s hi hj hs hs' => ?_⟩
  -- all places are positions of the tree, which stand for themselves
  have hself : ∀ {i q : Nat}, p.placeOf? held i = some q → t.positionToward? q = some q :=
    fun hi => Tree.positionToward?_of_lt hr (Nat.lt_of_lt_of_le (hwf.placeOf?_lt hi) hle)
  rw [hself hi, Option.some.injEq] at hs
  rw [hself hj, Option.some.injEq] at hs'
  rw [hs] at hi
  rw [hs'] at hj
  exact hwf.eq_of_placeOf?_eq hi hj

/-- The proof for the first of two leaves, against the root of the tree of both. -/
theorem verify_leafCount_first :
    let t := Tree.build [("a", [1]), ("b", [2])]
    let p : InclusionProof := ⟨[⟨2, [⟨0, .leaf "a"⟩, ⟨1, .supplied (.ofPayload [2])⟩]⟩,
      ⟨1, [⟨0, .derived⟩]⟩]⟩
    let held : List HeldLeaf := [("a", [1])]
    let root := Digest.ofPair (.ofPayload [1]) (.ofPayload [2])
    t.rootHash? = some root ∧ p.verify root held = .ok true ∧
      (Clash (t.hashed ++ p.hashed held) ∨
        (p.levels.length = t.height ∧ p.leafCount < 2 * t.leafCount ∧
          held.length ≤ p.leafCount ∧ held.length ≤ t.leafCount)) := by
  intro t p held root
  have hroot : t.rootHash? = some root := by
    simp [t, root, Tree.rootHash?, Tree.root?, Tree.build, Tree.ofLeaves, rowsOver, rowsFrom,
      leafRow, rowAbove, pairUp, Leaf.of]
  have hreplay : p.replay held = .ok root := rfl
  have hverify : p.verify root held = .ok true := by
    rw [verify, hreplay]
    exact congrArg Except.ok (decide_eq_true rfl)
  refine ⟨hroot, hverify, ?_⟩
  rcases verify_leafCount hroot hverify with hclash | ⟨hrows, -, hlt, hle, -, -, hfew⟩
  · exact .inl hclash
  · exact .inr ⟨hrows, hlt, hle, (hfew (Nat.le_refl 2)).1⟩

/-- **A leaf that is proved twice.** A proof that claims four leaves is accepted against the root of
a tree with three, and speaks of its last leaf under two positions. No two different byte strings
hashed for the tree or for the replay have one digest. -/
theorem verify_copy :
    let t := Tree.build [("a", [1]), ("b", [2]), ("c", [3])]
    let p : InclusionProof := ⟨[
      ⟨4, [⟨0, .leaf "a"⟩, ⟨1, .leaf "b"⟩, ⟨2, .leaf "c"⟩, ⟨3, .leaf "d"⟩]⟩,
      ⟨2, [⟨0, .derived⟩, ⟨1, .derived⟩]⟩, ⟨1, [⟨0, .derived⟩]⟩]⟩
    let held : List HeldLeaf := [("a", [1]), ("b", [2]), ("c", [3]), ("d", [3])]
    ∃ root, t.rootHash? = some root ∧ p.verify root held = .ok true ∧
      ¬ Clash (t.hashed ++ p.hashed held) ∧
      t.leafCount = 3 ∧ p.leafCount = 4 ∧ held.length = 4 ∧
      t.positionToward? 2 = some 2 ∧ t.positionToward? 3 = some 2 := by
  intro t p held
  let first := Digest.ofPair (.ofPayload [1]) (.ofPayload [2])
  let last := Digest.ofPair (.ofPayload [3]) (.ofPayload [3])
  -- six strings are hashed for the tree or for the replay, and they have six digests
  let inputs := [Digest.payloadInput [1], Digest.payloadInput [2], Digest.payloadInput [3],
    Digest.pairInput (.ofPayload [1]) (.ofPayload [2]),
    Digest.pairInput (.ofPayload [3]) (.ofPayload [3]), Digest.pairInput first last]
  have hdigests : (inputs.map Digest.hash).Nodup := by decide +kernel
  have hno : ¬ Clash inputs := by
    rintro ⟨x, hx, y, hy, hne, heq⟩
    exact hne (List.inj_on_of_nodup_map hdigests hx hy heq)
  have hroot : t.rootHash? = some (.ofPair first last) := by
    simp [t, first, last, Tree.rootHash?, Tree.root?, Tree.build, Tree.ofLeaves, rowsOver, rowsFrom,
      leafRow, rowAbove, pairUp, Leaf.of, Subtree.join, Subtree.wrap, Subtree.hash]
  have hreplay : p.replay held = .ok (.ofPair first last) := rfl
  have hverify : p.verify (.ofPair first last) held = .ok true := by
    rw [verify, hreplay]
    exact congrArg Except.ok (decide_eq_true rfl)
  have hreplayed : p.hashed held =
      [Digest.payloadInput [1], Digest.payloadInput [2], Digest.payloadInput [3],
        Digest.payloadInput [3], Digest.pairInput (.ofPayload [1]) (.ofPayload [2]),
        Digest.pairInput (.ofPayload [3]) (.ofPayload [3]), Digest.pairInput first last] := rfl
  have hhashed : ∀ x ∈ t.hashed ++ p.hashed held, x ∈ inputs := by
    rw [hreplayed]
    simp [t, inputs, first, last, Tree.build, Tree.ofLeaves, rowsOver, rowsFrom, leafRow, rowAbove,
      pairUp, Tree.root?, Leaf.of, Tree.hashed, Subtree.hashed, Subtree.join, Subtree.wrap,
      Subtree.hash]
  have hturns : turnsTo 2 2 = [true, false] ∧ turnsTo 2 3 = [true, true] := by decide
  have hposition : t.positionToward? 2 = some 2 ∧ t.positionToward? 3 = some 2 := by
    simp [t, hturns, Tree.positionToward?, Tree.height, Tree.build, Tree.ofLeaves, rowsOver,
      rowsFrom, leafRow, rowAbove, pairUp, Tree.root?, Leaf.of, Subtree.join, Subtree.wrap,
      Subtree.descend, Subtree.child, Subtree.position?]
  exact ⟨.ofPair first last, hroot, hverify, fun hclash => hno (hclash.mono hhashed), rfl, rfl, rfl,
    hposition⟩

end InclusionProof

end BlockLedger
