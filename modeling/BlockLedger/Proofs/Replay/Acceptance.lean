import BlockLedger.Proofs.Replay.Climb

/-!
# Which proofs are accepted

A replay stops at the first defect it meets. Taken together, its checks ask for no more and no less
than a well-formed proof, and then its answer is a matter of digests alone:

* `InclusionProof.replay_eq_ok_iff`: a replay ends with a digest iff the proof is well-formed and
  that digest is the label of the top;
* `InclusionProof.verify_accepts_iff`: the same for a check against a root, with the labels said as
  the one labelling there is.
-/

namespace BlockLedger

namespace InclusionProof

variable {p : InclusionProof} {held : List HeldLeaf}

theorem WellFormed.shaped (h : p.WellFormed held) : p.Shaped where
  levels_ne_nil := h.levels_ne_nil
  width_pos := h.width_pos
  width_halves := h.width_halves
  width_last := h.width_last
  ordered := h.ordered
  fitting := h.fitting

/-- The first row of a proof, and the rows above it. -/
theorem Shaped.exists_levels (h : p.Shaped) : ∃ l ls, p.levels = l :: ls :=
  List.exists_cons_of_ne_nil h.levels_ne_nil

/-- A row that names the leaves at hand, of which there are some, has an entry for one of them. -/
theorem exists_unsupplied_leaf {l : Level} (hne : held ≠ [])
    (hcount : ∀ id, l.countLeaf id = (held.map (·.1)).count id) :
    ∃ e ∈ l.entries, e.slot.supplied? = none := by
  -- the identifier of a leaf at hand is named at least once
  obtain ⟨leaf, hleaf⟩ := List.exists_mem_of_ne_nil held hne
  have hpos : 0 < l.countLeaf leaf.1 := by
    rw [hcount, List.count_pos_iff]
    exact List.mem_map_of_mem hleaf
  rw [← l.length_placesOf] at hpos
  obtain ⟨q, hq⟩ := List.exists_mem_of_length_pos hpos
  obtain ⟨e, he, hs, -⟩ := mem_placesIn.1 hq
  exact ⟨e, he, by rw [hs]; rfl⟩

/-- The steps of a replay: the shape, the leaf row, the climb. -/
theorem rootFrom_eq_ok_iff {l : Level} {ls : List Level} (hlevels : p.levels = l :: ls)
    {d : Digest} :
    p.rootFrom held = .ok d ↔
      p.Shaped ∧ ∃ values, rowOfLeaves held l = .ok values ∧ climb 1 l values ls = .ok d := by
  rw [rootFrom, then_eq_ok_iff, checkShape_eq_ok_iff]
  simp only [hlevels, bind_eq_ok_iff]

/-- The leaf row of a well-formed proof can be made, and carries its labels. -/
theorem WellFormed.exists_row (hwf : p.WellFormed held) {l : Level} (hl : p.levels[0]? = some l) :
    ∃ values, rowOfLeaves held l = .ok values ∧ l.Carries values (p.label held 0) := by
  have hcount := hwf.leaves_match l (by rw [List.head?_eq_getElem?, hl])
  have hslot : ∀ e ∈ l.entries, e.slot ≠ .derived :=
    fun e he => (hwf.fitting 0 l hl e he).ne_derived
  obtain ⟨values, hrow⟩ := exists_rowOfLeaves hslot hcount
  obtain ⟨-, hcarries⟩ := rowOfLeaves_spec (hwf.ordered_at hl) hrow
  have hlabel : p.label held 0 = fun q => (l.entryAt? q).bind (l.leafLabel held) :=
    funext fun q => label_zero hl q
  exact ⟨values, hrow, hlabel ▸ hcarries⟩

/-- A proof is well-formed iff it has its shape, names the leaves at hand, of which there are some, and
each row fits the one above it. -/
theorem wellFormed_iff_of_levels {l : Level} {ls : List Level} (hlevels : p.levels = l :: ls) :
    p.WellFormed held ↔
      p.Shaped ∧ held ≠ [] ∧ (∀ id, l.countLeaf id = (held.map (·.1)).count id) ∧
        (l :: ls).IsChain fun below above => below.Used above ∧ below.Fed above := by
  rw [← hlevels, isChain_iff_getElem?]
  refine ⟨fun h => ?_, ?_⟩
  · exact ⟨h.shaped, h.held_ne_nil, h.leaves_match l (by rw [hlevels, List.head?_cons]),
      fun k below above hb ha => ⟨h.used k below above hb ha, h.fed k below above hb ha⟩⟩
  · rintro ⟨hshape, hne, hcount, hchain⟩
    refine ⟨hne, hshape.levels_ne_nil, hshape.width_pos, hshape.width_halves, hshape.width_last,
      hshape.ordered, hshape.fitting, fun l' hl' => ?_,
      fun k below above hb ha => (hchain k below above hb ha).1,
      fun k below above hb ha => (hchain k below above hb ha).2⟩
    rw [hlevels, List.head?_cons] at hl'
    cases hl'
    exact hcount

/-- **The outcome of a replay.** It ends with a digest iff the proof is well-formed, and then with the
label of the top. -/
theorem replay_eq_ok_iff {d : Digest} :
    p.replay held = .ok d ↔
      p.WellFormed held ∧ p.label held (p.levels.length - 1) 0 = some d := by
  have hreplay : p.replay held = .ok d ↔ held ≠ [] ∧ p.rootFrom held = .ok d := by
    rw [replay]
    by_cases hne : held = []
    · simp [hne]
    · rw [if_neg (by simpa using hne)]
      cases p.rootFrom held <;> simp [hne]
  rw [hreplay]
  refine ⟨?_, ?_⟩
  · rintro ⟨hne, hroot⟩
    have hshape : p.Shaped := checkShape_eq_ok_iff.1 (then_eq_ok_iff.1 hroot).1
    obtain ⟨l, ls, hlevels⟩ := hshape.exists_levels
    have hzero : p.levels[0]? = some l := by rw [hlevels, List.getElem?_cons_zero]
    obtain ⟨-, values, hrow, hclimb⟩ := (rootFrom_eq_ok_iff hlevels).1 hroot
    obtain ⟨hcount, hcarries⟩ := rowOfLeaves_spec (hshape.ordered l (List.mem_of_getElem? hzero)) hrow
    have hlabel : p.label held 0 = fun q => (l.entryAt? q).bind (l.leafLabel held) :=
      funext fun q => label_zero hzero q
    -- the climb starts above a row that carries its labels and names a leaf at hand
    obtain ⟨hchain, hd⟩ := (climb_eq_ok_iff hshape (k := 0) hlevels (hlabel ▸ hcarries)
      (exists_unsupplied_leaf hne hcount)).1 hclimb
    exact ⟨(wellFormed_iff_of_levels hlevels).2 ⟨hshape, hne, hcount, hchain⟩, hd⟩
  · rintro ⟨hwf, hd⟩
    obtain ⟨l, ls, hlevels⟩ := hwf.shaped.exists_levels
    have hzero : p.levels[0]? = some l := by rw [hlevels, List.getElem?_cons_zero]
    obtain ⟨hshape, hne, hcount, hchain⟩ := (wellFormed_iff_of_levels hlevels).1 hwf
    obtain ⟨values, hrow, hcarries⟩ := hwf.exists_row hzero
    have hclimb := (climb_eq_ok_iff hshape (k := 0) hlevels hcarries
      (exists_unsupplied_leaf hne hcount)).2 ⟨hchain, hd⟩
    exact ⟨hne, (rootFrom_eq_ok_iff hlevels).2 ⟨hshape, values, hrow, hclimb⟩⟩

/-- In every row of a well-formed proof some entry is not supplied. -/
theorem WellFormed.exists_unsupplied (h : p.WellFormed held) {k : Nat} {l : Level}
    (hl : p.levels[k]? = some l) : ∃ e ∈ l.entries, e.slot.supplied? = none := by
  induction k generalizing l with
  | zero =>
    exact exists_unsupplied_leaf h.held_ne_nil
      (h.leaves_match l (by rw [List.head?_eq_getElem?, hl]))
  | succ k ih =>
    obtain ⟨below, hb⟩ := exists_level_of_succ hl
    obtain ⟨e, he, -⟩ := ih hb
    exact (h.used k below l hb hl).exists_unsupplied he

/-- The last row of a well-formed proof has one entry. It stands at the first place, and its digest is
not supplied. -/
theorem WellFormed.top (h : p.WellFormed held) :
    ∃ l e, p.levels[p.levels.length - 1]? = some l ∧ l.entries = [e] ∧ e.position = 0 ∧
      e.slot.supplied? = none := by
  have hlast := List.getLast?_eq_some_getLast h.levels_ne_nil
  have hwidth := h.width_last _ hlast
  rw [List.getLast?_eq_getElem?] at hlast
  -- an entry that is not supplied, in a row that has room for one entry
  obtain ⟨e, he, hs⟩ := h.exists_unsupplied hlast
  obtain ⟨hes, hzero⟩ := (h.ordered_at hlast).entries_eq_singleton hwidth he
  exact ⟨_, e, hlast, hes, hzero, hs⟩

/-- A well-formed proof has a label at the top. -/
theorem WellFormed.exists_top_label (h : p.WellFormed held) :
    ∃ d, p.label held (p.levels.length - 1) 0 = some d := by
  obtain ⟨l, e, hl, hes, hzero, -⟩ := h.top
  exact (labels_label h).exists_digest h hl ⟨e, by rw [hes, List.mem_singleton], hzero⟩

/-- The digest of the top is compared with the root. -/
theorem verify_eq_ok_iff {root : Digest} {b : Bool} :
    p.verify root held = .ok b ↔
      p.WellFormed held ∧ ∃ d, p.label held (p.levels.length - 1) 0 = some d ∧
        b = decide (d = root) := by
  have hverify : p.verify root held = .ok b ↔ ∃ d, p.replay held = .ok d ∧ b = decide (d = root) := by
    rw [verify]
    cases p.replay held with
    | error f => simp [Except.map]
    | ok d => simp [Except.map, eq_comm]
  simp only [hverify, replay_eq_ok_iff, and_assoc, exists_and_left]

/-- A proof that is accepted against one root is accepted against no other one. -/
theorem verify_of_accepted {root : Digest} (h : p.verify root held = .ok true) (other : Digest) :
    p.verify other held = .ok (decide (other = root)) := by
  obtain ⟨hwf, d, hd, hroot⟩ := verify_eq_ok_iff.1 h
  obtain rfl : d = root := of_decide_eq_true hroot.symm
  refine verify_eq_ok_iff.2 ⟨hwf, d, hd, ?_⟩
  rw [decide_eq_decide, eq_comm]

/-- **The proofs that are accepted** for checking against a root are exactly the well-formed ones. Such
a proof has one labelling, and the answer is whether it gives the root to the top. -/
theorem verify_accepts_iff (root : Digest) (held : List HeldLeaf) (p : InclusionProof) :
    ((∃ b, p.verify root held = .ok b) ↔ p.WellFormed held) ∧
      ∀ b, p.verify root held = .ok b ↔
        p.WellFormed held ∧ ∃ v, p.Labels held v ∧ (∀ w, p.Labels held w → w = v) ∧
          ∃ d, v (p.levels.length - 1) 0 = some d ∧ b = decide (d = root) := by
  refine ⟨?_, fun b => ?_⟩
  · constructor
    · rintro ⟨b, hb⟩
      exact (verify_eq_ok_iff.1 hb).1
    · intro hwf
      obtain ⟨d, hd⟩ := hwf.exists_top_label
      exact ⟨_, verify_eq_ok_iff.2 ⟨hwf, d, hd, rfl⟩⟩
  · constructor
    · intro hb
      obtain ⟨hwf, hd⟩ := verify_eq_ok_iff.1 hb
      have hlabels := labels_label hwf
      exact ⟨hwf, p.label held, hlabels, fun w hw => hw.unique hwf hlabels, hd⟩
    · rintro ⟨hwf, v, hv, -, hd⟩
      rw [hv.unique hwf (labels_label hwf)] at hd
      exact verify_eq_ok_iff.2 ⟨hwf, hd⟩

end InclusionProof

end BlockLedger
