import BlockLedger.InclusionProof.WellFormed
import BlockLedger.Proofs.Fallible
import BlockLedger.Proofs.Tree.Rows

/-!
# The shape of a proof

`checkShape` goes through a proof row by row and through each row entry by entry, and stops at the
first defect. Here its verdict is said of all rows at once: it finds nothing wrong iff the proof is
`InclusionProof.Shaped` (`checkShape_eq_ok_iff`).
-/

namespace BlockLedger

/-! ### One row -/

/-- What the check of a row asks of the next entry. -/
theorem checkEntries_cons_eq_ok_iff {level width : Nat} {previous : Option Nat} {e : Entry}
    {es : List Entry} :
    checkEntries level width previous (e :: es) = .ok () ↔
      e.position < width ∧ (∀ q, previous = some q → q < e.position) ∧ e.slot.FitsLevel level ∧
        checkEntries level width (some e.position) es = .ok () := by
  have hprevious : previous.any (e.position ≤ ·) = true ↔
      ¬ ∀ q, previous = some q → q < e.position := by
    cases previous <;> simp
  rw [checkEntries]
  -- in the order of the checks: range, order, kind
  by_cases hw : e.position < width
  · rw [if_neg (Nat.not_le.2 hw)]
    by_cases hq : ∀ q, previous = some q → q < e.position
    · rw [if_neg (mt hprevious.1 (not_not.2 hq)), iff_true_intro hw, iff_true_intro hq, true_and,
        true_and]
      cases e.slot with
      | leaf id => by_cases hz : level = 0 <;> simp [hz, Slot.FitsLevel]
      | derived => by_cases hz : level = 0 <;> simp [hz, Slot.FitsLevel, Nat.pos_iff_ne_zero]
      | supplied d => simp [Slot.FitsLevel]
    · rw [if_pos (hprevious.2 hq), iff_false_intro hq, false_and, and_false]
      simp
  · rw [if_pos (Nat.not_lt.1 hw), iff_false_intro hw, false_and]
    simp

theorem checkEntries_eq_ok_iff {level width : Nat} {previous : Option Nat} {es : List Entry} :
    checkEntries level width previous es = .ok () ↔
      (∀ e ∈ es, e.position < width) ∧ es.Pairwise (·.position < ·.position) ∧
        (∀ e ∈ es, ∀ q, previous = some q → q < e.position) ∧ ∀ e ∈ es, e.slot.FitsLevel level := by
  induction es generalizing previous with
  | nil => simp [checkEntries]
  | cons e es ih =>
    rw [checkEntries_cons_eq_ok_iff, ih]
    simp only [List.forall_mem_cons, List.pairwise_cons, Option.some.injEq, forall_eq']
    refine ⟨?_, ?_⟩
    · rintro ⟨hw, hq, hf, hws, hp, hlt, hfs⟩
      -- each entry is only compared with the one before it, and that is enough
      exact ⟨⟨hw, hws⟩, ⟨hlt, hp⟩,
        ⟨hq, fun d hd q hmem => Nat.lt_trans (hq q hmem) (hlt d hd)⟩, hf, hfs⟩
    · rintro ⟨⟨hw, hws⟩, ⟨hlt, hp⟩, ⟨hq, -⟩, hf, hfs⟩
      exact ⟨hw, hq, hf, hws, hp, hlt, hfs⟩

/-- A row passes iff its positions ascend within the width and its slots suit it. -/
theorem Level.check_eq_ok_iff {l : Level} {level : Nat} :
    checkEntries level l.width none l.entries = .ok () ↔
      l.Ordered ∧ ∀ e ∈ l.entries, e.slot.FitsLevel level := by
  rw [checkEntries_eq_ok_iff]
  refine ⟨?_, ?_⟩
  · rintro ⟨hw, hp, -, hf⟩
    exact ⟨⟨hp, hw⟩, hf⟩
  · rintro ⟨⟨hp, hw⟩, hf⟩
    exact ⟨hw, hp, fun e _ q hq => (Option.some_ne_none q hq.symm).elim, hf⟩

/-! ### All rows -/

/-- A row may stand on a row: that one is not the root's, and its width is halved. -/
def Level.Halves (below above : Level) : Prop :=
  below.width ≠ 1 ∧ above.width = (below.width + 1) / 2

/-- All rows above the lowest one hold the same kinds of slots. -/
theorem Slot.fitsLevel_iff_of_pos {s : Slot} {j k : Nat} (hj : 0 < j) (hk : 0 < k) :
    s.FitsLevel j ↔ s.FitsLevel k := by
  cases s with
  | leaf id => simp [FitsLevel, Nat.ne_of_gt hj, Nat.ne_of_gt hk]
  | derived => simp [FitsLevel, hj, hk]
  | supplied d => exact Iff.rfl

theorem checkLevels_eq_ok_iff {level : Nat} (hlevel : 0 < level) {below : Level} {ls : List Level} :
    checkLevels level below.width ls = .ok () ↔
      (below :: ls).IsChain Level.Halves ∧
        (∀ l, (below :: ls).getLast? = some l → l.width = 1) ∧
          ∀ l ∈ ls, l.Ordered ∧ ∀ e ∈ l.entries, e.slot.FitsLevel 1 := by
  induction ls generalizing level below with
  | nil =>
    rw [checkLevels]
    by_cases h : below.width = 1 <;> simp [h]
  | cons l ls ih =>
    have hlast : (below :: l :: ls).getLast? = (l :: ls).getLast? :=
      List.getLast?_cons_of_ne_nil (List.cons_ne_nil l ls)
    rw [List.isChain_cons_cons, hlast, List.forall_mem_cons, checkLevels]
    split
    next h => simp [Level.Halves, h]
    next h =>
      split
      next hw => simp [Level.Halves, hw]
      next hw =>
        have hhalves : below.Halves l := ⟨h, not_not.1 hw⟩
        -- the number of the row is only used to tell it from the leaf row
        rw [then_eq_ok_iff, Level.check_eq_ok_iff, ih (Nat.succ_pos level)]
        simp only [Slot.fitsLevel_iff_of_pos hlevel Nat.one_pos]
        refine ⟨?_, ?_⟩
        · rintro ⟨hl, hchain, hend, hls⟩
          exact ⟨⟨hhalves, hchain⟩, hend, hl, hls⟩
        · rintro ⟨⟨-, hchain⟩, hend, hl, hls⟩
          exact ⟨hl, hchain, hend, hls⟩

/-- **The shape of a proof**: widths that halve up to a single root, positions that ascend within the
width, and slots that suit their rows. -/
structure InclusionProof.Shaped (p : InclusionProof) : Prop where
  levels_ne_nil : p.levels ≠ []
  width_pos : ∀ l, p.levels.head? = some l → 1 ≤ l.width
  width_halves : ∀ k below above, p.levels[k]? = some below → p.levels[k + 1]? = some above →
    below.Halves above
  width_last : ∀ l, p.levels.getLast? = some l → l.width = 1
  ordered : ∀ l ∈ p.levels, l.Ordered
  fitting : ∀ (k : Nat) (l : Level), p.levels[k]? = some l → ∀ e ∈ l.entries, e.slot.FitsLevel k

/-- **The check of the shape** finds nothing wrong iff the proof has its shape. -/
theorem checkShape_eq_ok_iff {p : InclusionProof} : checkShape p.levels = .ok () ↔ p.Shaped := by
  obtain ⟨levels⟩ := p
  cases levels with
  | nil =>
    rw [checkShape]
    refine ⟨fun h => ?_, fun h => ?_⟩
    · cases h
    · exact absurd rfl h.levels_ne_nil
  | cons l ls =>
    rw [checkShape]
    by_cases hw : l.width = 0
    · rw [if_pos hw]
      refine ⟨fun h => ?_, fun h => ?_⟩
      · cases h
      · exact absurd (h.width_pos l rfl) (by omega)
    · rw [if_neg hw, then_eq_ok_iff, Level.check_eq_ok_iff, checkLevels_eq_ok_iff Nat.one_pos]
      refine ⟨?_, fun h => ?_⟩
      · rintro ⟨⟨hord, hfit⟩, hchain, hlast, hls⟩
        refine ⟨List.cons_ne_nil l ls, ?_, isChain_iff_getElem?.1 hchain, hlast, ?_, ?_⟩
        · rintro l' ⟨⟩
          omega
        · exact List.forall_mem_cons.2 ⟨hord, fun l' hl' => (hls l' hl').1⟩
        · intro k l' hl' e he
          cases k with
          | zero =>
            cases hl'
            exact hfit e he
          | succ k =>
            -- the rows above were checked as rows of one kind
            rw [List.getElem?_cons_succ] at hl'
            have hfit' := (hls l' (List.mem_of_getElem? hl')).2 e he
            exact (Slot.fitsLevel_iff_of_pos Nat.one_pos (Nat.succ_pos k)).1 hfit'
      · have hord := List.forall_mem_cons.1 h.ordered
        refine ⟨⟨hord.1, h.fitting 0 l rfl⟩, isChain_iff_getElem?.2 h.width_halves, h.width_last,
          fun l' hl' => ⟨hord.2 l' hl', fun e he => ?_⟩⟩
        obtain ⟨k, hk⟩ := List.mem_iff_getElem?.1 hl'
        exact (Slot.fitsLevel_iff_of_pos (Nat.succ_pos k) Nat.one_pos).1
          (h.fitting (k + 1) l' hk e he)

/-- **The number of leaves a proof claims** tells its number of rows. -/
theorem InclusionProof.Shaped.clog_leafCount {p : InclusionProof} (h : p.Shaped) :
    Nat.clog 2 p.leafCount = p.levels.length - 1 := by
  have hget : ∀ {k : Nat} (hk : k < p.levels.length), p.levels[k]? = some p.levels[k] :=
    fun hk => List.getElem?_eq_getElem hk
  have hlen : 0 < p.levels.length := List.length_pos_of_ne_nil h.levels_ne_nil
  have hcount : p.leafCount = ((p.levels[0]?).map (·.width)).getD 0 := by
    rw [leafCount, List.head?_eq_getElem?]
  rw [hcount]
  refine clog_of_halving (w := fun k => ((p.levels[k]?).map (·.width)).getD 0) ?_ ?_ ?_
  · rw [hget hlen]
    exact h.width_pos _ (by rw [List.head?_eq_getElem?, hget hlen])
  · intro k hk
    have hk' : k + 1 < p.levels.length := by omega
    rw [hget hk', hget (Nat.lt_of_succ_lt hk')]
    exact h.width_halves k _ _ (hget _) (hget hk')
  · have hlast : p.levels.length - 1 < p.levels.length := Nat.sub_lt hlen Nat.one_pos
    rw [hget hlast]
    exact h.width_last _ (by rw [List.getLast?_eq_getElem?, hget hlast])

end BlockLedger
