import BlockLedger.Proofs.Replay.LeafCount
import BlockLedger.Proofs.Request.Completeness
import Mathlib.Combinatorics.Enumerative.DoubleCounting

/-!
# Generated proofs are minimal

A generated proof supplies the digests of the places beside its ways to the root
(`Tree.Beside`, `Tree.suppliedAt_proofAt`). No proof for the same leaves of a tree with as many leaves
can do with fewer of them (`Tree.prove_minimal`), even if it is one for another tree.

The argument only looks at where such a proof has its entries (`Tree.SpeaksOf`). What lies above a
leaf that it names is derived, row by row, since whatever stands in a row is used in the row above
(`SpeaksOf.has_of_marked`). What is derived needs both values below it, so there is an entry at each
place beside a way as well (`SpeaksOf.has_beside`). No leaf is named below such a place; if the entry
is derived, its children are there, too, and following them downwards ends at a digest that is supplied
(`SpeaksOf.exists_supplied_under`).

So below each place beside a way the proof supplies a digest. It is never the same digest for two of
these places, as no one of them lies below another one: what lies above one of them is on a way itself
(`Beside.eq_of_under`).
-/

namespace BlockLedger

theorem Slot.supplied?_eq_some_iff {s : Slot} {d : Digest} :
    s.supplied? = some d ↔ s = .supplied d := by
  cases s <;> simp [Slot.supplied?]

namespace InclusionProof

/-! ### Places of a proof -/

/-- A proof names a leaf at a position. -/
def NamesLeaf (p : InclusionProof) (i : Nat) : Prop :=
  ∃ l ∈ p.levels, ∃ e ∈ l.entries, e.position = i ∧ ∃ id, e.slot = .leaf id

/-- A proof supplies the digest of a place. -/
def SuppliesAt (p : InclusionProof) (k i : Nat) : Prop :=
  ∃ l, p.levels[k]? = some l ∧ ∃ e ∈ l.entries, e.position = i ∧ ∃ d, e.slot = .supplied d

/-- The places whose digests a proof supplies, each given by its row and position. -/
def suppliedPlaces (p : InclusionProof) : List (Nat × Nat) :=
  p.levels.zipIdx.flatMap fun l => l.1.supplied.map fun s => (l.2, s.1)

variable {p : InclusionProof} {held : List HeldLeaf} {k i : Nat}

theorem length_suppliedPlaces (p : InclusionProof) : p.suppliedPlaces.length = p.suppliedCount := by
  have hrows : p.levels.flatMap Level.supplied =
      p.levels.zipIdx.flatMap fun l => l.1.supplied := by
    conv_lhs => rw [← List.zipIdx_map_fst 0 p.levels]
    rw [List.flatMap_map]
  rw [suppliedPlaces, suppliedCount, hrows, List.length_flatMap, List.length_flatMap]
  simp only [List.length_map]

theorem mem_suppliedPlaces : (k, i) ∈ p.suppliedPlaces ↔ p.SuppliesAt k i := by
  simp only [suppliedPlaces, List.mem_flatMap, List.mem_map, Level.supplied, List.mem_filterMap,
    Option.map_eq_some_iff, Slot.supplied?_eq_some_iff, List.mem_zipIdx_iff_getElem?, SuppliesAt]
  constructor
  · rintro ⟨⟨l, k'⟩, hl, s, ⟨e, he, d, hd, rfl⟩, heq⟩
    cases heq
    exact ⟨l, hl, e, he, rfl, d, hd⟩
  · rintro ⟨l, hl, e, he, rfl, d, hd⟩
    exact ⟨(l, k), hl, (e.position, d), ⟨e, he, d, hd, rfl⟩, rfl⟩

/-- No place is listed twice if the positions of each row ascend. -/
theorem nodup_suppliedPlaces (h : ∀ l ∈ p.levels, l.Ordered) : p.suppliedPlaces.Nodup := by
  rw [suppliedPlaces, List.nodup_flatMap]
  constructor
  · rintro ⟨l, k⟩ hl
    have hordered : l.Ordered :=
      h l (List.mem_of_getElem? (List.mem_zipIdx_iff_getElem?.1 hl))
    have hpositions : l.supplied.Pairwise fun s s' => s.1 < s'.1 := by
      refine hordered.1.filterMap _ fun e e' hlt s hs s' hs' => ?_
      obtain ⟨d, -, rfl⟩ := Option.map_eq_some_iff.1 hs
      obtain ⟨d', -, rfl⟩ := Option.map_eq_some_iff.1 hs'
      exact hlt
    refine List.Pairwise.map _ (fun s s' hlt heq => ?_) hpositions
    exact Nat.ne_of_lt hlt (congrArg Prod.snd heq)
  · -- places of different rows differ
    have hrows : p.levels.zipIdx.Pairwise fun l l' => l.2 < l'.2 := by
      rw [← List.pairwise_map (f := Prod.snd), List.zipIdx_map_snd]
      exact List.pairwise_lt_range'
    refine hrows.imp fun {l l'} hlt => ?_
    intro x hx hx'
    obtain ⟨s, -, rfl⟩ := List.mem_map.1 hx
    obtain ⟨s', -, heq⟩ := List.mem_map.1 hx'
    exact Nat.ne_of_lt hlt (congrArg Prod.fst heq).symm

end InclusionProof

namespace Tree

variable {t : Tree} {positions : List Nat} {k i : Nat}

/-! ### Places beside a way -/

/-- **A place beside a way to the root**: there is no way through it, but one through its sibling. -/
def Beside (t : Tree) (positions : List Nat) (k i : Nat) : Prop :=
  ¬ t.Marked positions k i ∧ t.Marked positions k (sibling i)

/-- A place lies under another one, or is that place. -/
def Under (place above : Nat × Nat) : Prop :=
  place.1 ≤ above.1 ∧ place.2 / 2 ^ (above.1 - place.1) = above.2

/-- What is marked is marked all the way up. -/
theorem Marked.div (h : t.Marked positions k i) (n : Nat) :
    t.Marked positions (k + n) (i / 2 ^ n) := by
  induction n with
  | zero =>
    rw [Nat.pow_zero, Nat.div_one]
    exact h
  | succ n ih =>
    rw [Nat.pow_succ, ← Nat.div_div_eq_div_mul]
    exact ih.half

/-- **No two places beside a way have anything under both of them.** -/
theorem Beside.eq_of_under {a b place : Nat × Nat} (ha : t.Beside positions a.1 a.2)
    (hb : t.Beside positions b.1 b.2) (hpa : Under place a) (hpb : Under place b) : a = b := by
  -- the higher one cannot be above the lower one, as all places there are marked
  have hlt : ∀ {a b : Nat × Nat}, t.Beside positions a.1 a.2 → t.Beside positions b.1 b.2 →
      Under place a → Under place b → ¬ a.1 < b.1 := by
    rintro ⟨k, i⟩ ⟨k', i'⟩ ⟨-, hmarked⟩ ⟨hnot, -⟩ ⟨hle, hi⟩ ⟨hle', hi'⟩ hlt
    refine hnot ?_
    obtain ⟨n, rfl⟩ := Nat.exists_eq_add_of_lt hlt
    have hup : t.Marked positions (k + 1) (i / 2) := by
      rw [← sibling_div_two]
      exact hmarked.half
    have hplace : i / 2 / 2 ^ n = i' := by
      have hexp : k + n + 1 - place.1 = (k - place.1) + (1 + n) := by
        simp only at hle
        omega
      simp only at hi hi'
      rw [← hi', hexp, Nat.pow_add, ← Nat.div_div_eq_div_mul, hi, Nat.pow_add,
        ← Nat.div_div_eq_div_mul, Nat.pow_one]
    have hway := hup.div n
    rw [hplace, Nat.add_right_comm] at hway
    exact hway
  have hrow : a.1 = b.1 :=
    Nat.le_antisymm (Nat.not_lt.1 (hlt hb ha hpb hpa)) (Nat.not_lt.1 (hlt ha hb hpa hpb))
  refine Prod.ext hrow ?_
  rw [← hpa.2, ← hpb.2, hrow]

/-- A row with a place beside a way is not the last one. -/
theorem Beside.lt_height (h : t.Beside positions k i) (hi : i < t.width k) : k + 1 < t.height := by
  have hk : k < t.height := by
    obtain ⟨s, hs⟩ := exists_at? hi
    exact lt_height_of_at? hs
  have hsibling := h.2.lt_width hk
  by_contra hlast
  -- the last row has room for one place, but not for its sibling
  have hwidth : t.width k = 1 := by
    have hk' : k = t.height - 1 := by omega
    rw [hk']
    exact width_last (Nat.zero_lt_of_lt hk)
  have hzero : i = 0 := by omega
  rw [hzero, hwidth] at hsibling
  exact absurd hsibling (by decide)

/-- **A generated proof supplies the digests beside its ways**, and no others. -/
theorem suppliesAt_proofAt :
    (t.proofAt positions).SuppliesAt k i ↔ i < t.width k ∧ t.Beside positions k i := by
  constructor
  · rintro ⟨l, hl, e, he, rfl, d, hd⟩
    obtain ⟨s, hs, ⟨-, hslot⟩ | ⟨hnot, hmarked, -⟩⟩ := (mem_entries_proofAt hl).1 he
    · -- what is marked is a leaf or derived
      rw [hd] at hslot
      cases s <;> cases hslot
    · exact ⟨lt_width_of_at? hs, hnot, hmarked⟩
  · rintro ⟨hi, hnot, hmarked⟩
    obtain ⟨s, hs⟩ := exists_at? hi
    have hk : k < t.height := lt_height_of_at? hs
    have hl : (t.proofAt positions).levels[k]? =
        some (levelFor (marksAt (t.marks positions) k) (t.row k)) := by
      rw [getElem?_levels_proofAt, getElem?_rows hk, Option.map_some]
    exact ⟨_, hl, ⟨i, .supplied s.hash⟩,
      (mem_entries_proofAt hl).2 ⟨s, hs, .inr ⟨hnot, hmarked, rfl⟩⟩, rfl, _, rfl⟩

/-- A generated proof names the leaves at the marked positions. -/
theorem namesLeaf_proofAt : (t.proofAt positions).NamesLeaf i ↔ t.Marked positions 0 i := by
  constructor
  · rintro ⟨l, hl, e, he, rfl, id, hid⟩
    obtain ⟨k, hk⟩ := List.mem_iff_getElem?.1 hl
    cases k with
    | zero =>
      obtain ⟨hmem, leaf, hleaf, -⟩ := (leaf_mem_proofAt hk hid).1 he
      exact marked_zero.2 ⟨hmem, (List.getElem?_eq_some_iff.1 hleaf).1⟩
    | succ k =>
      -- there are no leaves above the lowest row
      obtain ⟨s, hs, ⟨-, hslot⟩ | ⟨-, -, hslot⟩⟩ := (mem_entries_proofAt hk).1 he
      · rw [hid, slot_of_at?_succ hs] at hslot
        cases hslot
      · rw [hid] at hslot
        cases hslot
  · intro hmarked
    obtain ⟨hmem, hi⟩ := marked_zero.1 hmarked
    have hheight : 0 < t.height := height_pos (List.ne_nil_of_length_pos (Nat.zero_lt_of_lt hi))
    have hl : (t.proofAt positions).levels[0]? =
        some (levelFor (marksAt (t.marks positions) 0) (t.row 0)) := by
      rw [getElem?_levels_proofAt, getElem?_rows hheight, Option.map_some]
    have hleaf : t.leaves[i]? = some t.leaves[i] := List.getElem?_eq_getElem hi
    exact ⟨_, List.mem_of_getElem? hl, ⟨i, .leaf t.leaves[i].id⟩,
      (leaf_mem_proofAt hl rfl).2 ⟨hmem, _, hleaf, rfl⟩, rfl, _, rfl⟩

/-! ### Proofs for the same leaves -/

/-- **A proof that speaks of the marked leaves** of a tree with as many leaves, and can be replayed. -/
structure SpeaksOf (t : Tree) (positions : List Nat) (q : InclusionProof) (held : List HeldLeaf) :
    Prop where
  wellFormed : q.WellFormed held
  leafCount_eq : q.leafCount = t.leafCount
  namesLeaf_iff : ∀ i, q.NamesLeaf i ↔ t.Marked positions 0 i

namespace SpeaksOf

variable {q : InclusionProof} {held : List HeldLeaf}

theorem length_levels (h : t.SpeaksOf positions q held) (hheight : 0 < t.height) :
    q.levels.length = t.height := by
  have hpos : 0 < q.levels.length := List.length_pos_of_ne_nil h.wellFormed.levels_ne_nil
  have hclog := h.wellFormed.clog_leafCount
  rw [h.leafCount_eq, clog_leafCount hheight] at hclog
  omega

theorem exists_level (h : t.SpeaksOf positions q held) (hk : k < t.height) :
    ∃ l, q.levels[k]? = some l := by
  rw [← h.length_levels (Nat.zero_lt_of_lt hk)] at hk
  exact ⟨_, List.getElem?_eq_getElem hk⟩

theorem lt_height (h : t.SpeaksOf positions q held) (hheight : 0 < t.height) {l : Level}
    (hl : q.levels[k]? = some l) : k < t.height := by
  rw [← h.length_levels hheight]
  exact (List.getElem?_eq_some_iff.1 hl).1

/-- The rows are as wide as those of the tree. -/
theorem width_eq (h : t.SpeaksOf positions q held) (hheight : 0 < t.height) {l : Level}
    (hl : q.levels[k]? = some l) : l.width = t.width k := by
  induction k generalizing l with
  | zero =>
    have hcount := h.leafCount_eq
    rw [InclusionProof.leafCount, List.head?_eq_getElem?, hl, Option.map_some,
      Option.getD_some] at hcount
    rw [hcount, width_zero]
  | succ k ih =>
    obtain ⟨below, hb⟩ := InclusionProof.exists_level_of_succ hl
    rw [(h.wellFormed.width_halves k below l hb hl).2, ih hb, width_succ (h.lt_height hheight hl)]

/-- Above a place that has an entry the value is derived. -/
theorem derives_above (h : t.SpeaksOf positions q held) {below above : Level}
    (hb : q.levels[k]? = some below) (ha : q.levels[k + 1]? = some above) (hi : below.Has i) :
    ∃ e ∈ above.entries, e.position = i / 2 ∧ e.slot = .derived := by
  obtain ⟨e, he, rfl⟩ := hi
  exact Level.derives_iff.1 (h.wellFormed.used k below above hb ha e he)

/-- **Every marked place has an entry.** The induction goes upwards from the leaves. -/
theorem has_of_marked (h : t.SpeaksOf positions q held) (hmarked : t.Marked positions k i)
    {l : Level} (hl : q.levels[k]? = some l) : l.Has i := by
  induction k generalizing i l with
  | zero =>
    obtain ⟨l', hl', e, he, hposition, id, hid⟩ := (h.namesLeaf_iff i).2 hmarked
    obtain ⟨j, hj⟩ := List.mem_iff_getElem?.1 hl'
    -- leaves stand in the lowest row
    have hfit := h.wellFormed.fitting j l' hj e he
    rw [hid] at hfit
    obtain rfl : j = 0 := hfit
    rw [hl] at hj
    cases hj
    exact ⟨e, he, hposition⟩
  | succ k ih =>
    obtain ⟨below, hb⟩ := InclusionProof.exists_level_of_succ hl
    rcases marked_succ.1 hmarked with hleft | hright
    · obtain ⟨e, he, hposition, -⟩ := h.derives_above hb hl (ih hleft hb)
      exact ⟨e, he, by omega⟩
    · obtain ⟨e, he, hposition, -⟩ := h.derives_above hb hl (ih hright hb)
      exact ⟨e, he, by omega⟩

/-- **Every place beside a way has an entry**, because the value above it is derived. -/
theorem has_beside (h : t.SpeaksOf positions q held) (hbeside : t.Beside positions k i)
    (hi : i < t.width k) {l : Level} (hl : q.levels[k]? = some l) : l.Has i := by
  have hk : k + 1 < t.height := hbeside.lt_height hi
  obtain ⟨above, ha⟩ := h.exists_level hk
  obtain ⟨e, he, hposition, hslot⟩ := h.derives_above hl ha (h.has_of_marked hbeside.2 hl)
  rw [sibling_div_two] at hposition
  -- both places below the derived one are fed, the right one only if the row reaches it
  obtain ⟨hleft, hright⟩ := h.wellFormed.fed k l above hl ha e he hslot
  rw [hposition] at hleft hright
  rcases eq_left_or_eq_right i with heven | hodd
  · rw [heven]
    exact hleft
  · rw [hodd]
    refine hright ?_
    rw [h.width_eq (Nat.zero_lt_of_lt hk) hl, ← hodd]
    exact hi

/-- **A digest is supplied under each unmarked place that has an entry.** If the value there is
derived, so is the one on the left below it, or it is supplied; no leaf can be met on the way down,
since everything above a leaf that is named is marked. -/
theorem exists_supplied_under (h : t.SpeaksOf positions q held) (hnot : ¬ t.Marked positions k i)
    {l : Level} (hl : q.levels[k]? = some l) (hi : l.Has i) :
    ∃ place, q.SuppliesAt place.1 place.2 ∧ Under place (k, i) := by
  induction k generalizing i l with
  | zero =>
    obtain ⟨e, he, rfl⟩ := hi
    cases hslot : e.slot with
    | leaf id =>
      exact absurd ((h.namesLeaf_iff e.position).1 ⟨l, List.mem_of_getElem? hl, e, he, rfl, id, hslot⟩)
        hnot
    | derived => exact absurd hslot (h.wellFormed.fitting 0 l hl e he).ne_derived
    | supplied d =>
      exact ⟨(0, e.position), ⟨l, hl, e, he, rfl, d, hslot⟩, Nat.le_refl 0, Nat.div_one _⟩
  | succ k ih =>
    obtain ⟨e, he, rfl⟩ := hi
    cases hslot : e.slot with
    | leaf id => exact absurd hslot ((h.wellFormed.fitting (k + 1) l hl e he).ne_leaf id)
    | derived =>
      -- the way down goes on to the left, which is there even where a row ends
      obtain ⟨below, hb⟩ := InclusionProof.exists_level_of_succ hl
      have hleft := (h.wellFormed.fed k below l hb hl e he hslot).1
      have hnot' : ¬ t.Marked positions k (2 * e.position) :=
        fun hmarked => hnot (marked_succ.2 (.inl hmarked))
      obtain ⟨place, hsupplied, hle, hdiv⟩ := ih hnot' hb hleft
      have hexp : k + 1 - place.1 = (k - place.1) + 1 := Nat.succ_sub hle
      refine ⟨place, hsupplied, Nat.le_succ_of_le hle, ?_⟩
      calc place.2 / 2 ^ (k + 1 - place.1)
          = place.2 / 2 ^ (k - place.1) / 2 := by
            rw [hexp, Nat.pow_succ, Nat.div_div_eq_div_mul]
        _ = 2 * e.position / 2 := by rw [hdiv]
        _ = e.position := Nat.mul_div_cancel_left e.position (by decide)
    | supplied d =>
      refine ⟨(k + 1, e.position), ⟨l, hl, e, he, rfl, d, hslot⟩, Nat.le_refl (k + 1), ?_⟩
      rw [Nat.sub_self, Nat.pow_zero, Nat.div_one]

/-- **No fewer digests are supplied than by the generated proof.** -/
theorem suppliedCount_le (h : t.SpeaksOf positions q held) :
    (t.proofAt positions).suppliedCount ≤ q.suppliedCount := by
  have hnodup : (t.proofAt positions).suppliedPlaces.Nodup := by
    refine InclusionProof.nodup_suppliedPlaces fun l hl => ?_
    obtain ⟨k, hk⟩ := List.mem_iff_getElem?.1 hl
    rw [(level_proofAt hk).2]
    exact ordered_levelFor _ _
  have hbeside : ∀ place ∈ (t.proofAt positions).suppliedPlaces.toFinset,
      place.2 < t.width place.1 ∧ t.Beside positions place.1 place.2 := by
    intro place hplace
    exact suppliesAt_proofAt.1 (InclusionProof.mem_suppliedPlaces.1 (List.mem_toFinset.1 hplace))
  -- each digest of the generated proof has one of the other proof under it, and none is shared
  have hcard : (t.proofAt positions).suppliedPlaces.toFinset.card ≤ q.suppliedPlaces.toFinset.card := by
    refine Finset.card_le_card_of_forall_subsingleton (fun above place => Under place above) ?_ ?_
    · intro above habove
      obtain ⟨hi, hb⟩ := hbeside above habove
      obtain ⟨l, hl⟩ := h.exists_level (Nat.lt_of_succ_lt (hb.lt_height hi))
      obtain ⟨place, hsupplied, hunder⟩ := h.exists_supplied_under hb.1 hl (h.has_beside hb hi hl)
      exact ⟨place, List.mem_toFinset.2 (InclusionProof.mem_suppliedPlaces.2 hsupplied), hunder⟩
    · rintro place - a ⟨ha, hua⟩ b ⟨hb, hub⟩
      exact (hbeside a ha).2.eq_of_under (hbeside b hb).2 hua hub
  calc (t.proofAt positions).suppliedCount
      = (t.proofAt positions).suppliedPlaces.toFinset.card := by
        rw [List.toFinset_card_of_nodup hnodup, InclusionProof.length_suppliedPlaces]
    _ ≤ q.suppliedPlaces.toFinset.card := hcard
    _ ≤ q.suppliedPlaces.length := List.toFinset_card_le _
    _ = q.suppliedCount := InclusionProof.length_suppliedPlaces q

end SpeaksOf

/-! ### Requests -/

/-- **Generated proofs are minimal.** Every request for leaves of a tree has a proof, and no proof that
a checker can replay, for a tree with as many leaves and naming leaves at the same positions, supplies
fewer digests. -/
theorem prove_minimal {ids : List String} (hne : ids ≠ [])
    (hin : ∀ id ∈ ids, id ∈ t.leaves.map Leaf.id) :
    ∃ p, t.prove ids = .ok p ∧
      ∀ (q : InclusionProof) (root : Digest) (held : List HeldLeaf) (b : Bool),
        q.verify root held = .ok b → q.leafCount = t.leafCount →
          (∀ i, q.NamesLeaf i ↔ p.NamesLeaf i) → p.suppliedCount ≤ q.suppliedCount := by
  refine ⟨_, prove_eq_ok hne hin, fun q root held b hverify hcount hleaves => ?_⟩
  have hspeaks : t.SpeaksOf (ids.filterMap t.positionOf?) q held :=
    ⟨(InclusionProof.verify_eq_ok_iff.1 hverify).1, hcount,
      fun i => (hleaves i).trans namesLeaf_proofAt⟩
  exact hspeaks.suppliedCount_le

/-- A proof for the last of three leaves that supplies the digests of the other two, where the one of
both together would do. -/
def lavish : InclusionProof := ⟨[
  ⟨3, [⟨0, .supplied .zero⟩, ⟨1, .supplied .zero⟩, ⟨2, .leaf "c"⟩]⟩,
  ⟨2, [⟨0, .derived⟩, ⟨1, .derived⟩]⟩,
  ⟨1, [⟨0, .derived⟩]⟩]⟩

theorem prove_minimal_lavish :
    ∃ p, (build [("a", [1]), ("b", [2]), ("c", [3])]).prove ["c"] = .ok p ∧
      lavish.verify .zero [("c", [3])] = .ok false ∧
        p.suppliedCount ≤ lavish.suppliedCount ∧ lavish.suppliedCount = 2 := by
  have hin : ∀ id ∈ ["c"],
      id ∈ (build [("a", [1]), ("b", [2]), ("c", [3])]).leaves.map Leaf.id := by
    rw [ids_build]
    decide
  have hverify : lavish.verify .zero [("c", [3])] = .ok false := by decide +kernel
  have hne : ["c"] ≠ [] := by decide
  obtain ⟨p, hp, hminimal⟩ := prove_minimal hne hin
  refine ⟨p, hp, hverify, hminimal lavish .zero _ false hverify ?_ fun i => ?_, by decide⟩
  · rw [leafCount_build]
    rfl
  · -- both name a leaf at the last position only
    have hlavish : lavish.NamesLeaf i ↔ i = 2 := by
      simp [InclusionProof.NamesLeaf, lavish, eq_comm]
    rw [prove_eq_ok (by decide) hin] at hp
    cases hp
    have hrequested : Requested [("a", [1]), ("b", [2]), ("c", [3])] ["c"] i ↔ i = 2 := by
      simp [Requested, List.findIdx?_cons, eq_comm]
    rw [hlavish, namesLeaf_proofAt, marked_zero, mem_positions_build, leafCount_build, hrequested]
    refine ⟨?_, And.left⟩
    rintro rfl
    exact ⟨rfl, by decide⟩

end Tree

end BlockLedger
