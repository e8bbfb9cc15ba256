import BlockLedger.Proofs.Replay.Acceptance
import BlockLedger.Tree.Hashed

/-!
# What a replay hashes

The byte strings that are hashed to replay a proof follow the replay. Of a well-formed proof they are
known without it: the payloads at hand (`InclusionProof.payloadInput_mem_hashed`) and for each
derived place the two labels below it (`InclusionProof.WellFormed.exists_pair`). So whoever argues
about labels finds the inputs of all digests among the hashed strings.
-/

namespace BlockLedger

/-- The two digests below a derived place are hashed in the step that makes its row. -/
theorem Level.pairInput_mem_hashed {below above : Level} {values : RowValues}
    {f : Nat → Option Digest} (hrow : below.Carries values f) {e : Entry} (he : e ∈ above.entries)
    (hs : e.slot = .derived) {left right : Digest} (hleft : f (2 * e.position) = some left)
    (hright : f (rightBelow below.width e.position) = some right) :
    Digest.pairInput left right ∈ above.hashed below.width values := by
  refine List.mem_filterMap.2 ⟨e, he, ?_⟩
  rw [if_pos hs, valuesBelow_eq, hrow.lookup, hrow.lookup, hleft, hright]
  rfl

namespace InclusionProof

variable {p : InclusionProof} {held : List HeldLeaf}

/-- The payloads at hand are hashed. -/
theorem payloadInput_mem_hashed {l : HeldLeaf} (hl : l ∈ held) :
    Digest.payloadInput l.2 ∈ p.hashed held := by
  rw [hashed]
  exact List.mem_append_left _ (List.mem_map.2 ⟨l, hl, rfl⟩)

/-- From a row that carries its labels on, the labels below all derived places are hashed. -/
theorem WellFormed.pairInput_mem_hashedAbove (hwf : p.WellFormed held) {j k : Nat} (hkj : k ≤ j)
    {rest : List Level} {row : Level} {values : RowValues} (hdrop : p.levels.drop k = row :: rest)
    (hrow : row.Carries values (p.label held k)) {below above : Level}
    (hb : p.levels[j]? = some below) (ha : p.levels[j + 1]? = some above) {e : Entry}
    (he : e ∈ above.entries) (hs : e.slot = .derived) {left right : Digest}
    (hleft : p.label held j (2 * e.position) = some left)
    (hright : p.label held j (rightBelow below.width e.position) = some right) :
    Digest.pairInput left right ∈ hashedAbove (k + 1) row values rest := by
  induction rest generalizing k row values with
  | nil =>
    -- the row is the last one, but there is one above it
    have hlen : p.levels.length - k = 1 := by
      rw [← List.length_drop, hdrop, List.length_singleton]
    have hlt : j + 1 < p.levels.length := (List.getElem?_eq_some_iff.1 ha).1
    omega
  | cons next rest ih =>
    obtain ⟨hk, hdrop'⟩ := getElem?_of_drop hdrop
    have hk' := (getElem?_of_drop hdrop').1
    obtain ⟨values', hstep, hnext⟩ := hwf.shaped.exists_next hk hk' hrow
      (hwf.used k row next hk hk') (hwf.fed k row next hk hk')
    rw [hashedAbove, hstep]
    rcases Nat.eq_or_lt_of_le hkj with rfl | hlt
    · -- this is the step that makes the row of the place
      rw [hk] at hb
      rw [hk'] at ha
      cases hb
      cases ha
      exact List.mem_append_left _ (Level.pairInput_mem_hashed hrow he hs hleft hright)
    · exact List.mem_append_right _ (ih hlt hdrop' hnext)

/-- **The labels below a derived place are hashed.** -/
theorem WellFormed.pairInput_mem_hashed (hwf : p.WellFormed held) {k : Nat} {below above : Level}
    (hb : p.levels[k]? = some below) (ha : p.levels[k + 1]? = some above) {e : Entry}
    (he : e ∈ above.entries) (hs : e.slot = .derived) {left right : Digest}
    (hleft : p.label held k (2 * e.position) = some left)
    (hright : p.label held k (rightBelow below.width e.position) = some right) :
    Digest.pairInput left right ∈ p.hashed held := by
  obtain ⟨l, ls, hlevels⟩ := hwf.shaped.exists_levels
  have hzero : p.levels[0]? = some l := by rw [hlevels, List.getElem?_cons_zero]
  obtain ⟨values, hrow, hcarries⟩ := hwf.exists_row hzero
  have hdrop : p.levels.drop 0 = l :: ls := by rw [List.drop_zero, hlevels]
  have hmem := hwf.pairInput_mem_hashedAbove (Nat.zero_le k) hdrop hcarries hb ha he hs hleft hright
  refine List.mem_append_right _ ?_
  simp only [hlevels, hrow]
  exact hmem

/-- **A derived place** has the digest of two labels below it, which are hashed. -/
theorem WellFormed.exists_pair (hwf : p.WellFormed held) {k : Nat} {below above : Level}
    (hb : p.levels[k]? = some below) (ha : p.levels[k + 1]? = some above) {e : Entry}
    (he : e ∈ above.entries) (hs : e.slot = .derived) :
    ∃ left right, p.label held k (2 * e.position) = some left ∧
      p.label held k (rightBelow below.width e.position) = some right ∧
      p.label held (k + 1) e.position = some (.ofPair left right) ∧
      Digest.pairInput left right ∈ p.hashed held := by
  have hlabels := labels_label hwf
  obtain ⟨hhasl, hhasr⟩ := hwf.has_below hb ha he hs
  obtain ⟨left, hleft⟩ := hlabels.exists_digest hwf hb hhasl
  obtain ⟨right, hright⟩ := hlabels.exists_digest hwf hb hhasr
  exact ⟨left, right, hleft, hright,
    hlabels.derived k below above hb ha e he hs left right hleft hright,
    hwf.pairInput_mem_hashed hb ha he hs hleft hright⟩

end InclusionProof

end BlockLedger
