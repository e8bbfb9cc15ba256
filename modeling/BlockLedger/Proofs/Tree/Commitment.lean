import BlockLedger.Proofs.Tree.Binding

/-!
# The rows of a tree commit to its payloads

What the root of a tree commits to can be said without its rows (`commitment`): a list of at most `2
^ (k + 1)` payloads is cut behind the first `2 ^ k` of them, and both parts are committed to; if
there is nothing behind the cut, the first part counts twice.

A tree is built from the leaves upwards, row by row, while `commitment` cuts a list of payloads from
the root downwards. Both arrive at the same digests, for every number of leaves: the hash at place
`q` of row `k` is the commitment to the payloads under it (`Tree.hashAt?_eq_commitment`), which are
those from position `q * 2 ^ k` on, as many as there are up to `2 ^ k` (`segment`).

The induction is on the row. Above it a segment is cut into the two segments below
(`take_segment`, `drop_segment`). The last node of an odd row is joined with itself exactly where
nothing is left behind the cut: the row below ends with the place on the left iff no position lies
under the place on the right (`length_segment_le_iff`).
-/

namespace BlockLedger

/-! ### Commitments from above -/

/-- The number of leaves that a full subtree of the given height has under it. -/
def capacity (k : Nat) : Nat := 1 <<< k

/-- **The digest of a list of payloads** that are no more than `capacity k`. -/
def commitment : Nat → List Bytes → Digest
  | 0, payloads => .ofPayload (payloads.headD [])
  | k + 1, payloads =>
    if payloads.length ≤ capacity k then
      let half := commitment k payloads
      .ofPair half half
    else .ofPair (commitment k (payloads.take (capacity k))) (commitment k (payloads.drop (capacity k)))

/-! ### Segments -/

/-- **The payloads under place `q` of row `k`**: those at the positions from `q * 2 ^ k` on that are
less than `(q + 1) * 2 ^ k`. -/
def segment (payloads : List Bytes) (k q : Nat) : List Bytes :=
  (payloads.drop (q * 2 ^ k)).take (2 ^ k)

variable {payloads : List Bytes} {k q : Nat}

theorem length_segment (payloads : List Bytes) (k q : Nat) :
    (segment payloads k q).length = min (2 ^ k) (payloads.length - q * 2 ^ k) := by
  rw [segment, List.length_take, List.length_drop]

theorem segment_ne_nil_iff : segment payloads k q ≠ [] ↔ q * 2 ^ k < payloads.length := by
  have hpos : 0 < 2 ^ k := Nat.two_pow_pos k
  rw [← List.length_pos_iff, length_segment]
  omega

/-- **The left half of a segment** lies under the place below on the left. -/
theorem take_segment (payloads : List Bytes) (k q : Nat) :
    (segment payloads (k + 1) q).take (2 ^ k) = segment payloads k (2 * q) := by
  have hle : 2 ^ k ≤ 2 ^ (k + 1) := Nat.pow_le_pow_right Nat.two_pos (Nat.le_succ k)
  rw [segment, segment, List.take_take, Nat.min_eq_left hle, start_left]

/-- **The right half of a segment** lies under the place below on the right. -/
theorem drop_segment (payloads : List Bytes) (k q : Nat) :
    (segment payloads (k + 1) q).drop (2 ^ k) = segment payloads k (2 * q + 1) := by
  have hhalf : 2 ^ (k + 1) - 2 ^ k = 2 ^ k := by
    rw [Nat.pow_succ']
    omega
  rw [segment, segment, List.drop_take, List.drop_drop, hhalf, start_right]

/-- Nothing is left behind the cut iff no position lies under the place on the right. -/
theorem length_segment_le_iff :
    (segment payloads (k + 1) q).length ≤ 2 ^ k ↔ payloads.length ≤ (2 * q + 1) * 2 ^ k := by
  have hpos : 0 < 2 ^ k := Nat.two_pow_pos k
  rw [length_segment, start_right, Nat.pow_succ']
  omega

/-- A segment that fits into its left half is that half. -/
theorem segment_of_le (h : payloads.length ≤ (2 * q + 1) * 2 ^ k) :
    segment payloads (k + 1) q = segment payloads k (2 * q) := by
  rw [← take_segment, List.take_of_length_le (length_segment_le_iff.2 h)]

/-! ### Commitments -/

theorem capacity_eq (k : Nat) : capacity k = 2 ^ k := Nat.one_shiftLeft k

theorem commitment_of_le (h : payloads.length ≤ 2 ^ k) :
    commitment (k + 1) payloads = .ofPair (commitment k payloads) (commitment k payloads) := by
  rw [← capacity_eq] at h
  rw [commitment, if_pos h]

theorem commitment_of_lt (h : 2 ^ k < payloads.length) :
    commitment (k + 1) payloads =
      .ofPair (commitment k (payloads.take (2 ^ k))) (commitment k (payloads.drop (2 ^ k))) := by
  rw [← capacity_eq] at h
  rw [commitment, if_neg (Nat.not_le.2 h), capacity_eq]

/-- **The commitment to a segment** is made of those to the two segments below it; if there is no
payload under the one on the right, the one on the left counts twice. -/
theorem commitment_segment (payloads : List Bytes) (k q : Nat) :
    commitment (k + 1) (segment payloads (k + 1) q) =
      .ofPair (commitment k (segment payloads k (2 * q)))
        (commitment k (segment payloads k
          (if payloads.length ≤ (2 * q + 1) * 2 ^ k then 2 * q else 2 * q + 1))) := by
  by_cases h : payloads.length ≤ (2 * q + 1) * 2 ^ k
  · rw [commitment_of_le (length_segment_le_iff.2 h), segment_of_le h, if_pos h]
  · have hlong : 2 ^ k < (segment payloads (k + 1) q).length :=
      Nat.lt_of_not_le (mt length_segment_le_iff.1 h)
    rw [commitment_of_lt hlong, take_segment, drop_segment, if_neg h]

namespace Tree

variable {t : Tree}

/-- **The hash at a place** is the commitment to the payloads under it. -/
theorem hashAt?_eq_commitment (hk : k < t.height) (hq : q < t.width k) :
    t.hashAt? k q = some (commitment k (segment (t.leaves.map Leaf.payload) k q)) := by
  induction k generalizing q with
  | zero =>
    rw [width_zero] at hq
    have hleaf : t.leaves[q]? = some t.leaves[q] := List.getElem?_eq_getElem hq
    have hhead : (segment (t.leaves.map Leaf.payload) 0 q).headD [] = t.leaves[q].payload := by
      rw [segment, Nat.pow_zero, Nat.mul_one, List.headD_eq_head?_getD, List.head?_take,
        if_neg Nat.one_ne_zero, List.head?_drop, List.getElem?_map, hleaf, Option.map_some,
        Option.getD_some]
    rw [hashAt?_zero, hleaf, Option.map_some, commitment, hhead, Leaf.hash_eq]
  | succ k ih =>
    have hk' : k < t.height := Nat.lt_of_succ_lt hk
    rw [width_succ hk] at hq
    have hleft : 2 * q < t.width k := by omega
    -- the row below reaches the place on the right iff there is a payload under that place
    have hright : 2 * q + 1 < t.width k ↔ ¬ t.leafCount ≤ (2 * q + 1) * 2 ^ k := by
      rw [lt_width_iff hk', Nat.not_le]
    have hend : rightBelow (t.width k) q =
        if t.leafCount ≤ (2 * q + 1) * 2 ^ k then 2 * q else 2 * q + 1 := by
      rw [rightBelow, if_congr hright rfl rfl, ite_not]
    have hlt : rightBelow (t.width k) q < t.width k := by
      rw [rightBelow]
      split
      · assumption
      · exact hleft
    rw [hashAt?_succ hk]
    refine digestAbove_eq_some_iff.2 ⟨_, _, ih hk' hleft, ih hk' hlt, ?_⟩
    rw [commitment_segment, List.length_map, hend]
    rfl

/-- The whole list of payloads is the segment under the root. -/
theorem segment_root (h : t.leaves ≠ []) :
    segment (t.leaves.map Leaf.payload) (t.height - 1) 0 = t.leaves.map Leaf.payload := by
  rw [segment, Nat.zero_mul, List.drop_zero]
  apply List.take_of_length_le
  rw [List.length_map]
  exact leafCount_le h

/-- **The rows of a tree commit to its payloads.** The hash at each place of the tree is the
commitment to the payloads under it, of which there is one at least and no more than the row has
room for, and there is no hash anywhere else. The root, which a tree has unless it has no leaves,
commits to all payloads. -/
theorem build_commits (items : List (String × Bytes)) :
    let t := build items
    let payloads := items.map (·.2)
    (∀ k q, t.hashAt? k q =
        if k < t.height ∧ q < t.width k then some (commitment k (segment payloads k q)) else none) ∧
      (∀ k q, k < t.height → q < t.width k →
        segment payloads k q ≠ [] ∧ (segment payloads k q).length ≤ 2 ^ k) ∧
      t.rootHash? = (if items = [] then none else some (commitment (t.height - 1) payloads)) := by
  intro t payloads
  have hleaves : t.leaves = items.map fun i => Leaf.of i.1 i.2 := leaves_build items
  have hpayloads : t.leaves.map Leaf.payload = payloads := by
    rw [hleaves, List.map_map]
    rfl
  have hcount : t.leafCount = payloads.length := by rw [leafCount_build, List.length_map]
  refine ⟨fun k q => ?_, fun k q hk hq => ⟨?_, ?_⟩, ?_⟩
  · split
    next h => rw [hashAt?_eq_commitment h.1 h.2, hpayloads]
    next h =>
      rw [← Option.not_isSome_iff_eq_none, isSome_hashAt?_iff]
      intro hq
      obtain ⟨s, hs⟩ := exists_at? hq
      exact h ⟨lt_height_of_at? hs, hq⟩
  · rwa [segment_ne_nil_iff, ← hcount, ← lt_width_iff hk]
  · rw [length_segment]
    exact Nat.min_le_left _ _
  · split
    next h =>
      have hnone : t.leaves = [] := by rw [hleaves, h, List.map_nil]
      rw [rootHash?, root?, rows_of_no_leaves hnone]
      rfl
    next h =>
      have hne : t.leaves ≠ [] := by
        rw [hleaves]
        exact mt List.map_eq_nil_iff.1 h
      have hheight := height_pos hne
      have htop : t.height - 1 < t.height := Nat.sub_lt hheight Nat.one_pos
      have hroot : 0 < t.width (t.height - 1) := by
        rw [width_last hheight]
        exact Nat.one_pos
      rw [rootHash?_eq_hashAt? hheight, hashAt?_eq_commitment htop hroot, segment_root hne,
        hpayloads]

/-- The fifth of five leaves stands alone in its row and in the row above that one. -/
theorem build_commits_five :
    let t := build [("a", [1]), ("b", [2]), ("c", [3]), ("d", [4]), ("e", [5])]
    let below := segment [[1], [2], [3], [4], [5]] 1 2
    (1 < t.height ∧ 2 < t.width 1) ∧ (below ≠ [] ∧ below.length ≤ 2 ^ 1) ∧
      t.hashAt? 1 2 = some (.ofPair (.ofPayload [5]) (.ofPayload [5])) := by
  intro t below
  have hheight : Nat.clog 2 5 = t.height - 1 :=
    clog_leafCount (t := t) (height_pos (List.cons_ne_nil _ _))
  have hk : 1 < t.height := by
    have htwo : 1 < Nat.clog 2 5 := (Nat.lt_clog_iff_pow_lt Nat.one_lt_two).2 (by decide)
    omega
  have hq : 2 < t.width 1 := (lt_width_iff hk).2 (by decide)
  obtain ⟨hhash, hsegment, -⟩ :=
    build_commits [("a", [1]), ("b", [2]), ("c", [3]), ("d", [4]), ("e", [5])]
  refine ⟨⟨hk, hq⟩, hsegment 1 2 hk hq, ?_⟩
  rw [hhash, if_pos ⟨hk, hq⟩]
  rfl

end Tree

end BlockLedger
