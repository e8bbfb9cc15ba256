import BlockLedger.InclusionProof.WellFormed
import BlockLedger.Proofs.Tree.Rows

/-!
# The labels of a proof

A replay computes a digest for each place of a proof. Which digest that is can be said without the
replay: a *labelling* (`InclusionProof.Labels`) gives the `j`-th place that names a leaf the digest of
the `j`-th payload at hand for that leaf, a place whose digest is supplied that digest, and a derived
place the digest of the two places below it. It gives nothing to places without an entry.

* `InclusionProof.label` is the labelling that is defined by recursion on the rows;
* `InclusionProof.labels_label`: it is a labelling if the proof is well-formed;
* `InclusionProof.Labels.unique`: there is no other one.

Places and payloads of one identifier are matched in order, so both are listed for each identifier
(`Level.placesOf`, `payloadsOf`), and the number of the place decides which payload it gets.
-/

namespace BlockLedger

/-! ### Places and payloads of an identifier -/

/-- The positions of the entries that name a leaf, in order. -/
def placesIn (entries : List Entry) (id : String) : List Nat :=
  (entries.filter (·.slot = .leaf id)).map (·.position)

/-- The positions at which a row names a leaf, in order. -/
def Level.placesOf (l : Level) (id : String) : List Nat := placesIn l.entries id

/-- The payloads at hand for an identifier, in order. -/
def payloadsOf (held : List HeldLeaf) (id : String) : List Bytes :=
  (held.filter (·.1 = id)).map (·.2)

@[simp] theorem placesIn_nil (id : String) : placesIn [] id = [] := rfl

theorem placesIn_cons_of_eq {e : Entry} {id : String} (h : e.slot = .leaf id) (es : List Entry) :
    placesIn (e :: es) id = e.position :: placesIn es id := by
  rw [placesIn, List.filter_cons_of_pos (by simpa using h), List.map_cons, placesIn]

theorem placesIn_cons_of_ne {e : Entry} {id : String} (h : e.slot ≠ .leaf id) (es : List Entry) :
    placesIn (e :: es) id = placesIn es id := by
  rw [placesIn, List.filter_cons_of_neg (by simpa using h), placesIn]

theorem placesIn_cons_of_other {e : Entry} {id other : String} (h : e.slot = .leaf other)
    (hne : id ≠ other) (es : List Entry) : placesIn (e :: es) id = placesIn es id := by
  refine placesIn_cons_of_ne ?_ es
  rw [h]
  exact fun heq => hne (Slot.leaf.inj heq).symm

theorem placesIn_cons_of_supplied {e : Entry} {d : Digest} (h : e.slot = .supplied d)
    (id : String) (es : List Entry) : placesIn (e :: es) id = placesIn es id := by
  refine placesIn_cons_of_ne ?_ es
  rw [h]
  exact Slot.noConfusion

theorem mem_placesIn {entries : List Entry} {id : String} {q : Nat} :
    q ∈ placesIn entries id ↔ ∃ e ∈ entries, e.slot = .leaf id ∧ e.position = q := by
  simp [placesIn, and_assoc]

@[simp] theorem payloadsOf_nil (id : String) : payloadsOf [] id = [] := rfl

theorem payloadsOf_cons_of_eq {l : HeldLeaf} {id : String} (h : l.1 = id) (ls : List HeldLeaf) :
    payloadsOf (l :: ls) id = l.2 :: payloadsOf ls id := by
  rw [payloadsOf, List.filter_cons_of_pos (by simpa using h), List.map_cons, payloadsOf]

theorem payloadsOf_cons_of_ne {l : HeldLeaf} {id : String} (h : l.1 ≠ id) (ls : List HeldLeaf) :
    payloadsOf (l :: ls) id = payloadsOf ls id := by
  rw [payloadsOf, List.filter_cons_of_neg (by simpa using h), payloadsOf]

theorem mem_payloadsOf {held : List HeldLeaf} {id : String} {b : Bytes} :
    b ∈ payloadsOf held id ↔ (id, b) ∈ held := by
  refine ⟨fun h => ?_, fun h => ?_⟩
  · obtain ⟨l, hl, rfl⟩ := List.mem_map.1 h
    obtain ⟨hmem, hid⟩ := List.mem_filter.1 hl
    obtain rfl : l.1 = id := by simpa using hid
    exact hmem
  · exact List.mem_map.2 ⟨(id, b), List.mem_filter.2 ⟨h, by simp⟩, rfl⟩

/-- There are as many payloads for an identifier as leaves with it. -/
theorem length_payloadsOf (held : List HeldLeaf) (id : String) :
    (payloadsOf held id).length = (held.map (·.1)).count id := by
  induction held with
  | nil => rfl
  | cons l ls ih =>
    by_cases h : l.1 = id
    · rw [payloadsOf_cons_of_eq h, List.length_cons, ih, List.map_cons, h, List.count_cons_self]
    · rw [payloadsOf_cons_of_ne h, ih, List.map_cons, List.count_cons_of_ne h]

/-- A row names a leaf at as many places as it has entries for it. -/
theorem Level.length_placesOf (l : Level) (id : String) :
    (l.placesOf id).length = l.countLeaf id := by
  rw [placesOf, countLeaf, leafIds]
  induction l.entries with
  | nil => rfl
  | cons e es ih =>
    by_cases h : e.slot = .leaf id
    · rw [placesIn_cons_of_eq h, List.length_cons, ih,
        List.filterMap_cons_some (b := id) (by rw [h]; rfl), List.count_cons_self]
    · rw [placesIn_cons_of_ne h, ih]
      -- an entry that is not for this identifier adds nothing to either list
      cases hs : e.slot with
      | leaf other =>
        have hne : other ≠ id := by
          rintro rfl
          exact h hs
        rw [List.filterMap_cons_some (b := other) (by rw [hs]; rfl), List.count_cons_of_ne hne]
      | derived => rw [List.filterMap_cons_none (by rw [hs]; rfl)]
      | supplied d => rw [List.filterMap_cons_none (by rw [hs]; rfl)]

/-! ### Slots of a row -/

/-- Nothing is derived in the leaf row. -/
theorem Slot.FitsLevel.ne_derived {s : Slot} (h : s.FitsLevel 0) : s ≠ .derived := by
  rintro rfl
  exact Nat.lt_irrefl 0 h

/-- No leaf is named above the leaf row. -/
theorem Slot.FitsLevel.ne_leaf {s : Slot} {k : Nat} (h : s.FitsLevel (k + 1)) (id : String) :
    s ≠ .leaf id := by
  rintro rfl
  exact Nat.succ_ne_zero k h

/-! ### Labels of a row -/

/-- The digest of a place in the leaf row. -/
def Level.leafLabel (l : Level) (held : List HeldLeaf) (e : Entry) : Option Digest :=
  match e.slot with
  | .leaf id => (payloadsOf held id)[(l.placesOf id).idxOf e.position]?.map .ofPayload
  | .supplied h => some h
  | .derived => none

/-- The digest of a place above a row of the given width with digests `f`. -/
def Entry.labelAbove (width : Nat) (f : Nat → Option Digest) (e : Entry) : Option Digest :=
  match e.slot with
  | .leaf _ => none
  | .supplied h => some h
  | .derived => digestAbove width f e.position

/-- The entry of a row at a position. -/
def Level.entryAt? (l : Level) (q : Nat) : Option Entry := l.entries.find? (·.position = q)

theorem Level.entryAt?_eq_none {l : Level} {q : Nat} : l.entryAt? q = none ↔ ¬ l.Has q := by
  simp [entryAt?, Has]

/-- Positions that ascend tell the entries of a row apart. -/
theorem Level.Ordered.entryAt?_eq_some {l : Level} (h : l.Ordered) {e : Entry} (he : e ∈ l.entries) :
    l.entryAt? e.position = some e := by
  obtain ⟨hlt, -⟩ := h
  rw [entryAt?]
  -- the first entry at a position is found, and it is the only one
  generalize l.entries = es at he hlt
  induction es with
  | nil => cases he
  | cons d ds ih =>
    obtain ⟨hd, hds⟩ := List.pairwise_cons.1 hlt
    rcases List.mem_cons.1 he with rfl | he
    · exact List.find?_cons_of_pos (by simp)
    · have hne : d.position ≠ e.position := Nat.ne_of_lt (hd e he)
      rw [List.find?_cons_of_neg (by simpa using hne)]
      exact ih he hds

theorem Level.Ordered.nodup_placesOf {l : Level} (h : l.Ordered) (id : String) :
    (l.placesOf id).Nodup := by
  rw [placesOf, placesIn, List.nodup_iff_pairwise_ne, List.pairwise_map]
  exact (h.1.filter _).imp Nat.ne_of_lt

namespace InclusionProof

variable {p : InclusionProof} {held : List HeldLeaf}

/-- **The labels of a proof**, row by row from the leaves upwards. -/
def label (p : InclusionProof) (held : List HeldLeaf) : Nat → Nat → Option Digest
  | 0, q => p.levels[0]?.bind fun l => (l.entryAt? q).bind (l.leafLabel held)
  | k + 1, q => p.levels[k]?.bind fun below => p.levels[k + 1]?.bind fun above =>
      (above.entryAt? q).bind (Entry.labelAbove below.width (p.label held k))

/-- **A labelling of a proof** with the leaves at hand. -/
structure Labels (p : InclusionProof) (held : List HeldLeaf) (v : Nat → Nat → Option Digest) :
    Prop where
  /-- The `j`-th place for a leaf gets the `j`-th payload for it. -/
  leaf : ∀ l, p.levels[0]? = some l → ∀ (id : String) (j q : Nat) (b : Bytes),
    (l.placesOf id)[j]? = some q → (payloadsOf held id)[j]? = some b → v 0 q = some (.ofPayload b)
  supplied : ∀ k l, p.levels[k]? = some l → ∀ e ∈ l.entries, ∀ h, e.slot = .supplied h →
    v k e.position = some h
  /-- A derived place gets the digest of the two below; at the end of an odd row they are one. -/
  derived : ∀ k below above, p.levels[k]? = some below → p.levels[k + 1]? = some above →
    ∀ e ∈ above.entries, e.slot = .derived → ∀ left right, v k (2 * e.position) = some left →
      v k (rightBelow below.width e.position) = some right →
        v (k + 1) e.position = some (.ofPair left right)
  /-- Places without an entry get nothing. -/
  absent : ∀ k q, (∀ l, p.levels[k]? = some l → ¬ l.Has q) → v k q = none

/-! ### Places of a well-formed proof -/

theorem WellFormed.ordered_at (h : p.WellFormed held) {k : Nat} {l : Level}
    (hl : p.levels[k]? = some l) : l.Ordered :=
  h.ordered l (List.mem_of_getElem? hl)

/-- A row with a number has all rows below it. -/
theorem exists_level_of_succ {k : Nat} {above : Level} (ha : p.levels[k + 1]? = some above) :
    ∃ below, p.levels[k]? = some below :=
  ⟨_, List.getElem?_eq_getElem (Nat.lt_of_succ_lt (List.getElem?_eq_some_iff.1 ha).1)⟩

/-- The leaf row names leaves and holds supplied digests. -/
theorem WellFormed.slot_zero (h : p.WellFormed held) {l : Level} (hl : p.levels[0]? = some l)
    {e : Entry} (he : e ∈ l.entries) :
    (∃ id, e.slot = .leaf id) ∨ ∃ d, e.slot = .supplied d := by
  have hfit := h.fitting 0 l hl e he
  cases hs : e.slot with
  | leaf id => exact .inl ⟨id, rfl⟩
  | derived => exact absurd hs hfit.ne_derived
  | supplied d => exact .inr ⟨d, rfl⟩

/-- The rows above hold derived and supplied digests. -/
theorem WellFormed.slot_succ (h : p.WellFormed held) {k : Nat} {l : Level}
    (hl : p.levels[k + 1]? = some l) {e : Entry} (he : e ∈ l.entries) :
    e.slot = .derived ∨ ∃ d, e.slot = .supplied d := by
  have hfit := h.fitting (k + 1) l hl e he
  cases hs : e.slot with
  | leaf id => exact absurd hs (hfit.ne_leaf id)
  | derived => exact .inl rfl
  | supplied d => exact .inr ⟨d, rfl⟩

/-- A place that names a leaf is one of the places for it, and has a payload at hand. -/
theorem WellFormed.exists_payload (h : p.WellFormed held) {l : Level} (hl : p.levels[0]? = some l)
    {e : Entry} (he : e ∈ l.entries) {id : String} (hs : e.slot = .leaf id) :
    ∃ (j : Nat) (b : Bytes),
      (l.placesOf id)[j]? = some e.position ∧ (payloadsOf held id)[j]? = some b := by
  obtain ⟨j, hj⟩ := List.mem_iff_getElem?.1 (mem_placesIn.2 ⟨e, he, hs, rfl⟩)
  have hcount := h.leaves_match l (by rw [List.head?_eq_getElem?, hl]) id
  have hlt : j < (l.placesOf id).length := (List.getElem?_eq_some_iff.1 hj).1
  -- as many payloads are at hand as there are places
  rw [l.length_placesOf, hcount, ← length_payloadsOf] at hlt
  exact ⟨j, _, hj, List.getElem?_eq_getElem hlt⟩

/-- A derived place has an entry at each of the two places below it. -/
theorem WellFormed.has_below (h : p.WellFormed held) {k : Nat} {below above : Level}
    (hb : p.levels[k]? = some below) (ha : p.levels[k + 1]? = some above) {e : Entry}
    (he : e ∈ above.entries) (hs : e.slot = .derived) :
    below.Has (2 * e.position) ∧ below.Has (rightBelow below.width e.position) := by
  obtain ⟨hleft, hright⟩ := h.fed k below above hb ha e he hs
  refine ⟨hleft, ?_⟩
  by_cases hlt : 2 * e.position + 1 < below.width
  · rw [rightBelow_of_lt hlt]
    exact hright hlt
  · -- nothing stands on the right, and the left one is used twice
    rw [rightBelow_of_le (Nat.not_lt.1 hlt)]
    exact hleft

/-! ### One labelling -/

/-- Two labellings have the same digest, and have one, wherever there is an entry. -/
theorem Labels.agree {v w : Nat → Nat → Option Digest} (h : p.WellFormed held)
    (hv : p.Labels held v) (hw : p.Labels held w) {k : Nat} {l : Level}
    (hl : p.levels[k]? = some l) {q : Nat} (hq : l.Has q) :
    ∃ d, v k q = some d ∧ w k q = some d := by
  obtain ⟨e, he, rfl⟩ := hq
  -- from the leaf row upwards: what is derived depends on places of the row below, which have entries
  induction k generalizing l e with
  | zero =>
    rcases h.slot_zero hl he with ⟨id, hs⟩ | ⟨d, hs⟩
    · obtain ⟨j, b, hj, hb⟩ := h.exists_payload hl he hs
      exact ⟨_, hv.leaf l hl id j _ b hj hb, hw.leaf l hl id j _ b hj hb⟩
    · exact ⟨d, hv.supplied 0 l hl e he d hs, hw.supplied 0 l hl e he d hs⟩
  | succ k ih =>
    rcases h.slot_succ hl he with hs | ⟨d, hs⟩
    · obtain ⟨below, hb⟩ := exists_level_of_succ hl
      obtain ⟨⟨a, ha, hleft⟩, c, hc, hright⟩ := h.has_below hb hl he hs
      obtain ⟨left, hvl, hwl⟩ := ih hb a ha
      obtain ⟨right, hvr, hwr⟩ := ih hb c hc
      rw [hleft] at hvl hwl
      rw [hright] at hvr hwr
      exact ⟨_, hv.derived k below l hb hl e he hs left right hvl hvr,
        hw.derived k below l hb hl e he hs left right hwl hwr⟩
    · exact ⟨d, hv.supplied (k + 1) l hl e he d hs, hw.supplied (k + 1) l hl e he d hs⟩

/-- A labelling has a digest for every entry. -/
theorem Labels.exists_digest {v : Nat → Nat → Option Digest} (hv : p.Labels held v)
    (h : p.WellFormed held) {k : Nat} {l : Level} (hl : p.levels[k]? = some l) {q : Nat}
    (hq : l.Has q) : ∃ d, v k q = some d := by
  obtain ⟨d, hd, -⟩ := hv.agree h hv hl hq
  exact ⟨d, hd⟩

/-- **There is only one labelling** of a well-formed proof. -/
theorem Labels.unique {v w : Nat → Nat → Option Digest} (h : p.WellFormed held)
    (hv : p.Labels held v) (hw : p.Labels held w) : v = w := by
  funext k q
  by_cases hhas : ∃ l, p.levels[k]? = some l ∧ l.Has q
  · obtain ⟨l, hl, hq⟩ := hhas
    obtain ⟨d, hvd, hwd⟩ := hv.agree h hw hl hq
    rw [hvd, hwd]
  · -- where nothing stands, both labellings have nothing
    have hnone : ∀ l, p.levels[k]? = some l → ¬ l.Has q := fun l hl hq => hhas ⟨l, hl, hq⟩
    rw [hv.absent k q hnone, hw.absent k q hnone]

/-! ### The labels are a labelling -/

theorem label_zero {l : Level} (hl : p.levels[0]? = some l) (q : Nat) :
    p.label held 0 q = (l.entryAt? q).bind (l.leafLabel held) := by
  rw [label, hl, Option.bind_some]

theorem label_succ {k : Nat} {below above : Level} (hb : p.levels[k]? = some below)
    (ha : p.levels[k + 1]? = some above) (q : Nat) :
    p.label held (k + 1) q
      = (above.entryAt? q).bind (Entry.labelAbove below.width (p.label held k)) := by
  rw [label, hb, ha, Option.bind_some, Option.bind_some]

theorem label_absent {k q : Nat} (h : ∀ l, p.levels[k]? = some l → ¬ l.Has q) :
    p.label held k q = none := by
  cases hl : p.levels[k]? with
  | none => cases k <;> simp [label, hl]
  | some l =>
    have hentry : l.entryAt? q = none := Level.entryAt?_eq_none.2 (h l hl)
    cases k with
    | zero => rw [label_zero hl, hentry, Option.bind_none]
    | succ k =>
      obtain ⟨below, hb⟩ := exists_level_of_succ hl
      rw [label_succ hb hl, hentry, Option.bind_none]

/-- **The labels of a well-formed proof are a labelling.** -/
theorem labels_label (h : p.WellFormed held) : p.Labels held (p.label held) where
  leaf l hl id j q b hj hb := by
    have hord := h.ordered_at hl
    obtain ⟨e, he, hs, rfl⟩ := mem_placesIn.1 (List.mem_of_getElem? hj)
    obtain ⟨hlt, hget⟩ := List.getElem?_eq_some_iff.1 hj
    -- positions are not repeated, so the position tells which of the places it is
    have hidx : (l.placesOf id).idxOf e.position = j := by
      rw [← hget]
      exact (hord.nodup_placesOf id).idxOf_getElem j hlt
    rw [label_zero hl, hord.entryAt?_eq_some he, Option.bind_some, Level.leafLabel, hs]
    simp only [hidx, hb, Option.map_some]
  supplied k l hl e he d hs := by
    have hord := h.ordered_at hl
    cases k with
    | zero =>
      rw [label_zero hl, hord.entryAt?_eq_some he, Option.bind_some, Level.leafLabel, hs]
    | succ k =>
      obtain ⟨below, hb⟩ := exists_level_of_succ hl
      rw [label_succ hb hl, hord.entryAt?_eq_some he, Option.bind_some, Entry.labelAbove, hs]
  derived k below above hb ha e he hs left right hleft hright := by
    have hord := h.ordered_at ha
    rw [label_succ hb ha, hord.entryAt?_eq_some he, Option.bind_some, Entry.labelAbove, hs]
    exact digestAbove_eq_some_iff.2 ⟨left, right, hleft, hright, rfl⟩
  absent k q hq := label_absent hq

end InclusionProof

end BlockLedger
