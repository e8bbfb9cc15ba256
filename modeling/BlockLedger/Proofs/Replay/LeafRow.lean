import BlockLedger.Proofs.Fallible
import BlockLedger.Proofs.Replay.Labels

/-!
# The values of the leaf row

The leaves at hand are used up entry by entry, so what a later entry gets depends on the entries
before it. `Placed` is that process as a relation, one rule for each kind of entry; `leafValues` runs
it (`leafValues_eq_ok_iff`). Along a run the payloads for one identifier are a queue: each entry for
it takes the first of them (`Placed.payloadsOf_left`), so the `j`-th place gets the `j`-th payload
(`Placed.mem_of_leaf`).

A run that uses up all leaves gives the row its labels (`rowOfLeaves_spec`), and there is one
whenever each leaf is named as often as it is at hand (`exists_rowOfLeaves`).
-/

namespace BlockLedger

/-! ### Values that agree with digests -/

/-- The values of a row stand at the positions of its entries and agree with the digests `f`. -/
structure Level.Carries (l : Level) (values : RowValues) (f : Nat → Option Digest) : Prop where
  positions : values.map (·.1) = l.entries.map (·.position)
  lookup : ∀ q, values.lookup q = f q

theorem lookup_isSome_iff_mem {values : RowValues} {q : Nat} :
    (values.lookup q).isSome ↔ q ∈ values.map (·.1) := by
  rw [List.lookup_isSome_iff, List.mem_map]
  refine ⟨?_, ?_⟩
  · rintro ⟨v, hv, hq⟩
    exact ⟨v, hv, (eq_of_beq hq).symm⟩
  · rintro ⟨v, hv, rfl⟩
    exact ⟨v, hv, beq_self_eq_true v.1⟩

theorem lookup_eq_some_of_mem {values : RowValues} {q : Nat} {d : Digest}
    (hnodup : (values.map (·.1)).Nodup) (h : (q, d) ∈ values) : values.lookup q = some d := by
  induction values with
  | nil => cases h
  | cons v vs ih =>
    obtain ⟨hv, hvs⟩ := List.nodup_cons.1 hnodup
    rcases List.mem_cons.1 h with rfl | h
    · exact List.lookup_cons_self
    · have hne : q ≠ v.1 := by
        rintro rfl
        exact hv (List.mem_map.2 ⟨_, h, rfl⟩)
      rw [List.lookup_cons, beq_eq_false_iff_ne.2 hne]
      exact ih hvs h

/-- Where a row has an entry it has a value, and nowhere else. -/
theorem Level.Carries.isSome_iff {l : Level} {values : RowValues} {f : Nat → Option Digest}
    (h : l.Carries values f) {q : Nat} : (f q).isSome ↔ l.Has q := by
  rw [← h.lookup, lookup_isSome_iff_mem, h.positions, List.mem_map, Level.Has]

theorem Level.Ordered.nodup_positions {l : Level} (h : l.Ordered) :
    (l.entries.map (·.position)).Nodup := by
  rw [List.nodup_iff_pairwise_ne, List.pairwise_map]
  exact h.1.imp Nat.ne_of_lt

/-! ### Taking a leaf -/

theorem takeLeaf_eq_none_iff {id : String} {held : List HeldLeaf} :
    takeLeaf id held = none ↔ payloadsOf held id = [] := by
  induction held with
  | nil => simp [takeLeaf]
  | cons l ls ih =>
    by_cases h : l.1 = id
    · rw [takeLeaf, if_pos h, payloadsOf_cons_of_eq h]
      simp
    · rw [takeLeaf, if_neg h, payloadsOf_cons_of_ne h, Option.map_eq_none_iff, ih]

/-- Taking a leaf takes the first payload for its identifier and no other payload. -/
theorem payloadsOf_of_takeLeaf {id : String} {held rest : List HeldLeaf} {b : Bytes}
    (h : takeLeaf id held = some (b, rest)) :
    payloadsOf held id = b :: payloadsOf rest id ∧
      ∀ other, other ≠ id → payloadsOf held other = payloadsOf rest other := by
  induction held generalizing rest with
  | nil => cases h
  | cons l ls ih =>
    by_cases hid : l.1 = id
    · rw [takeLeaf, if_pos hid] at h
      cases h
      refine ⟨payloadsOf_cons_of_eq hid ls, fun other hother => ?_⟩
      exact payloadsOf_cons_of_ne (hid ▸ hother.symm) ls
    · -- the leaf that is taken stands further back, and this one stays in front
      rw [takeLeaf, if_neg hid, Option.map_eq_some_iff] at h
      obtain ⟨⟨b', rest'⟩, htake, hpair⟩ := h
      cases hpair
      obtain ⟨hsame, hothers⟩ := ih htake
      refine ⟨?_, fun other hother => ?_⟩
      · rw [payloadsOf_cons_of_ne hid, payloadsOf_cons_of_ne hid, hsame]
      · by_cases ho : l.1 = other
        · rw [payloadsOf_cons_of_eq ho, payloadsOf_cons_of_eq ho, hothers other hother]
        · rw [payloadsOf_cons_of_ne ho, payloadsOf_cons_of_ne ho, hothers other hother]

/-! ### Filling the row -/

/-- **Filling the leaf row**: `Placed held es values left` says that the entries `es` get the given
values from the leaves `held`, and that the leaves `left` remain. -/
inductive Placed : List HeldLeaf → List Entry → RowValues → List HeldLeaf → Prop
  | nil (held : List HeldLeaf) : Placed held [] [] held
  | supplied {held left : List HeldLeaf} {e : Entry} {es : List Entry} {values : RowValues}
      {d : Digest} (slot : e.slot = .supplied d) (rest : Placed held es values left) :
      Placed held (e :: es) ((e.position, d) :: values) left
  | leaf {held others left : List HeldLeaf} {e : Entry} {es : List Entry} {values : RowValues}
      {id : String} {b : Bytes} (slot : e.slot = .leaf id)
      (take : takeLeaf id held = some (b, others)) (rest : Placed others es values left) :
      Placed held (e :: es) ((e.position, .ofPayload b) :: values) left

theorem leafValues_eq_ok_iff {held left : List HeldLeaf} {es : List Entry} {values : RowValues} :
    leafValues held es = .ok (values, left) ↔ Placed held es values left := by
  refine ⟨fun h => ?_, fun h => ?_⟩
  · -- along the entries: what is left for the later ones depends on this one
    induction es generalizing held values with
    | nil =>
      cases h
      exact .nil _
    | cons e es ih =>
      rw [leafValues] at h
      cases hs : e.slot with
      | derived =>
        rw [hs] at h
        cases h
      | supplied d =>
        rw [hs] at h
        obtain ⟨⟨vs, ls⟩, hrest, h⟩ := bind_eq_ok_iff.1 h
        cases h
        exact .supplied hs (ih hrest)
      | leaf id =>
        simp only [hs] at h
        cases htake : takeLeaf id held with
        | none =>
          rw [htake] at h
          cases h
        | some taken =>
          obtain ⟨b, others⟩ := taken
          rw [htake] at h
          obtain ⟨⟨vs, ls⟩, hrest, h⟩ := bind_eq_ok_iff.1 h
          cases h
          exact .leaf hs htake (ih hrest)
  · induction h with
    | nil held => rfl
    | supplied slot _ ih =>
      rw [leafValues, slot]
      exact bind_eq_ok_iff.2 ⟨_, ih, rfl⟩
    | leaf slot take _ ih =>
      simp only [leafValues, slot, take]
      exact bind_eq_ok_iff.2 ⟨_, ih, rfl⟩

variable {held left : List HeldLeaf} {es : List Entry} {values : RowValues}

theorem Placed.positions (h : Placed held es values left) :
    values.map (·.1) = es.map (·.position) := by
  induction h with
  | nil held => rfl
  | supplied _ _ ih => rw [List.map_cons, List.map_cons, ih]
  | leaf _ _ _ ih => rw [List.map_cons, List.map_cons, ih]

/-- Each place for an identifier takes one payload from the front of its queue. -/
theorem Placed.payloadsOf_left (h : Placed held es values left) (id : String) :
    (placesIn es id).length ≤ (payloadsOf held id).length ∧
      payloadsOf left id = (payloadsOf held id).drop (placesIn es id).length := by
  induction h with
  | nil held => exact ⟨Nat.zero_le _, rfl⟩
  | supplied slot _ ih =>
    rw [placesIn_cons_of_supplied slot]
    exact ih
  | @leaf held others left e es values other b slot take _ ih =>
    obtain ⟨hsame, hothers⟩ := payloadsOf_of_takeLeaf take
    by_cases hid : id = other
    · -- one place and one payload less
      subst hid
      rw [placesIn_cons_of_eq slot, hsame]
      exact ⟨Nat.succ_le_succ ih.1, ih.2⟩
    · -- the queue of another identifier is not touched
      rw [placesIn_cons_of_other slot hid, hothers id hid]
      exact ih

/-- **The `j`-th place gets the `j`-th payload.** -/
theorem Placed.mem_of_leaf (h : Placed held es values left) {id : String} {j q : Nat} {b : Bytes}
    (hq : (placesIn es id)[j]? = some q) (hb : (payloadsOf held id)[j]? = some b) :
    (q, Digest.ofPayload b) ∈ values := by
  induction h generalizing j with
  | nil held => cases hq
  | supplied slot _ ih =>
    rw [placesIn_cons_of_supplied slot] at hq
    exact List.mem_cons_of_mem _ (ih hq hb)
  | @leaf held others left e es values other c slot take _ ih =>
    obtain ⟨hsame, hothers⟩ := payloadsOf_of_takeLeaf take
    by_cases hid : id = other
    · subst hid
      rw [placesIn_cons_of_eq slot] at hq
      rw [hsame] at hb
      -- the first place takes the payload in front, the others come later in both lists
      cases j with
      | zero =>
        cases hq
        cases hb
        exact List.mem_cons_self
      | succ j => exact List.mem_cons_of_mem _ (ih hq hb)
    · rw [placesIn_cons_of_other slot hid] at hq
      rw [hothers id hid] at hb
      exact List.mem_cons_of_mem _ (ih hq hb)

theorem Placed.mem_of_supplied (h : Placed held es values left) {e : Entry} (he : e ∈ es)
    {d : Digest} (hs : e.slot = .supplied d) : (e.position, d) ∈ values := by
  induction h with
  | nil held => cases he
  | supplied slot _ ih =>
    rcases List.mem_cons.1 he with rfl | he
    · rw [slot] at hs
      cases hs
      exact List.mem_cons_self
    · exact List.mem_cons_of_mem _ (ih he)
  | leaf slot _ _ ih =>
    rcases List.mem_cons.1 he with rfl | he
    · rw [slot] at hs
      cases hs
    · exact List.mem_cons_of_mem _ (ih he)

theorem Placed.slot_ne_derived (h : Placed held es values left) {e : Entry} (he : e ∈ es) :
    e.slot ≠ .derived := by
  induction h with
  | nil held => cases he
  | supplied slot _ ih =>
    rcases List.mem_cons.1 he with rfl | he
    · rw [slot]
      exact Slot.noConfusion
    · exact ih he
  | leaf slot _ _ ih =>
    rcases List.mem_cons.1 he with rfl | he
    · rw [slot]
      exact Slot.noConfusion
    · exact ih he

/-- The row can be filled if no leaf is named more often than it is at hand. -/
theorem exists_placed (hslot : ∀ e ∈ es, e.slot ≠ .derived)
    (hcount : ∀ id, (placesIn es id).length ≤ (payloadsOf held id).length) :
    ∃ values left, Placed held es values left := by
  induction es generalizing held with
  | nil => exact ⟨[], held, .nil held⟩
  | cons e es ih =>
    obtain ⟨he, hes⟩ := List.forall_mem_cons.1 hslot
    cases hs : e.slot with
    | derived => exact absurd hs he
    | supplied d =>
      have hcount' : ∀ id, (placesIn es id).length ≤ (payloadsOf held id).length := fun id => by
        have := hcount id
        rwa [placesIn_cons_of_supplied hs] at this
      obtain ⟨values, left, h⟩ := ih hes hcount'
      exact ⟨_, _, .supplied hs h⟩
    | leaf id =>
      cases htake : takeLeaf id held with
      | none =>
        -- a place without a payload would be one place too many
        have hlen := hcount id
        rw [takeLeaf_eq_none_iff.1 htake, placesIn_cons_of_eq hs] at hlen
        exact absurd hlen (Nat.not_succ_le_zero _)
      | some taken =>
        obtain ⟨b, others⟩ := taken
        obtain ⟨hsame, hothers⟩ := payloadsOf_of_takeLeaf htake
        -- the queue of this identifier has lost one payload and one place, the others nothing
        have hcount' : ∀ other, (placesIn es other).length ≤ (payloadsOf others other).length := by
          intro other
          have hlen := hcount other
          by_cases hid : other = id
          · subst hid
            rw [placesIn_cons_of_eq hs, hsame] at hlen
            exact Nat.le_of_succ_le_succ hlen
          · rwa [placesIn_cons_of_other hs hid, hothers other hid] at hlen
        obtain ⟨values, left, h⟩ := ih hes hcount'
        exact ⟨_, _, .leaf hs htake h⟩

/-! ### The row with all leaves used -/

/-- The values of a row that is filled in full are its labels. -/
theorem Placed.carries {l : Level} (hord : l.Ordered) (h : Placed held l.entries values left)
    (hcount : ∀ id, l.countLeaf id = (payloadsOf held id).length) :
    l.Carries values fun q => (l.entryAt? q).bind (l.leafLabel held) where
  positions := h.positions
  lookup q := by
    have hnodup : (values.map (·.1)).Nodup := by
      rw [h.positions]
      exact hord.nodup_positions
    by_cases hq : l.Has q
    · -- positions are not repeated, so a value that is somewhere in the list is the one looked up
      obtain ⟨e, he, rfl⟩ := hq
      rw [hord.entryAt?_eq_some he, Option.bind_some, Level.leafLabel]
      cases hs : e.slot with
      | leaf id =>
        obtain ⟨j, hj⟩ := List.mem_iff_getElem?.1 (mem_placesIn.2 ⟨e, he, hs, rfl⟩)
        obtain ⟨hlt, hget⟩ := List.getElem?_eq_some_iff.1 hj
        have hidx : (l.placesOf id).idxOf e.position = j := by
          rw [← hget]
          exact (hord.nodup_placesOf id).idxOf_getElem j hlt
        -- the count says that the queue still holds a payload for this place
        have hlt' : j < (payloadsOf held id).length := by
          rw [← hcount, ← l.length_placesOf]
          exact hlt
        simp only [hidx, List.getElem?_eq_getElem hlt', Option.map_some]
        exact lookup_eq_some_of_mem hnodup (h.mem_of_leaf hj (List.getElem?_eq_getElem hlt'))
      | derived => exact absurd hs (h.slot_ne_derived he)
      | supplied d => exact lookup_eq_some_of_mem hnodup (h.mem_of_supplied he hs)
    · rw [Level.entryAt?_eq_none.2 hq, Option.bind_none, ← Option.isNone_iff_eq_none,
        ← Option.not_isSome, Bool.not_eq_true', ← Bool.not_eq_true, lookup_isSome_iff_mem,
        h.positions, List.mem_map]
      exact hq

/-- No leaf remains unused iff no identifier has a payload left. -/
theorem find?_unused_eq_none_iff (h : Placed held es values left) :
    (held.find? fun l => left.any (·.1 = l.1)) = none ↔ ∀ id, payloadsOf left id = [] := by
  rw [List.find?_eq_none]
  refine ⟨?_, ?_⟩
  · intro hnone id
    by_contra hne
    obtain ⟨b, hb⟩ := List.exists_mem_of_ne_nil _ hne
    -- a leaf that remains was at hand at the start
    have hheld : (id, b) ∈ held := by
      rw [(h.payloadsOf_left id).2] at hb
      exact mem_payloadsOf.1 (List.mem_of_mem_drop hb)
    exact hnone (id, b) hheld (List.any_eq_true.2 ⟨(id, b), mem_payloadsOf.1 hb, by simp⟩)
  · intro hnil l _ hany
    obtain ⟨m, hm, hid⟩ := List.any_eq_true.1 hany
    have hmem : m.2 ∈ payloadsOf left m.1 := mem_payloadsOf.2 hm
    rw [hnil] at hmem
    cases hmem

/-- The row is made iff it can be filled so that no leaf remains. -/
theorem rowOfLeaves_eq_ok_iff {l : Level} :
    rowOfLeaves held l = .ok values ↔
      ∃ left, Placed held l.entries values left ∧ ∀ id, payloadsOf left id = [] := by
  rw [rowOfLeaves, bind_eq_ok_iff]
  refine ⟨?_, ?_⟩
  · rintro ⟨⟨vs, left⟩, hvalues, h⟩
    have hplaced := leafValues_eq_ok_iff.1 hvalues
    cases hfind : held.find? fun l => left.any (·.1 = l.1) with
    | none =>
      simp only [hfind] at h
      cases h
      exact ⟨left, hplaced, (find?_unused_eq_none_iff hplaced).1 hfind⟩
    | some l =>
      simp only [hfind] at h
      cases h
  · rintro ⟨left, hplaced, hnil⟩
    refine ⟨(values, left), leafValues_eq_ok_iff.2 hplaced, ?_⟩
    simp only [(find?_unused_eq_none_iff hplaced).2 hnil]
    rfl

/-- **A row that is made of the leaves** names each of them as often as it is at hand, and has its
labels for values. -/
theorem rowOfLeaves_spec {l : Level} (hord : l.Ordered) (h : rowOfLeaves held l = .ok values) :
    (∀ id, l.countLeaf id = (held.map (·.1)).count id) ∧
      l.Carries values fun q => (l.entryAt? q).bind (l.leafLabel held) := by
  obtain ⟨left, hplaced, hnil⟩ := rowOfLeaves_eq_ok_iff.1 h
  -- each queue has been used up by the places for it, no more and no less
  have hcount : ∀ id, l.countLeaf id = (payloadsOf held id).length := by
    intro id
    obtain ⟨hle, hdrop⟩ := hplaced.payloadsOf_left id
    rw [hnil, eq_comm, List.drop_eq_nil_iff] at hdrop
    rw [← l.length_placesOf]
    exact Nat.le_antisymm hle hdrop
  exact ⟨fun id => by rw [hcount, length_payloadsOf], hplaced.carries hord hcount⟩

theorem exists_rowOfLeaves {l : Level} (hslot : ∀ e ∈ l.entries, e.slot ≠ .derived)
    (hcount : ∀ id, l.countLeaf id = (held.map (·.1)).count id) :
    ∃ values, rowOfLeaves held l = .ok values := by
  have hlen : ∀ id, (placesIn l.entries id).length = (payloadsOf held id).length := by
    intro id
    rw [length_payloadsOf, ← hcount, ← l.length_placesOf, Level.placesOf]
  obtain ⟨values, left, hplaced⟩ := exists_placed hslot fun id => Nat.le_of_eq (hlen id)
  refine ⟨values, rowOfLeaves_eq_ok_iff.2 ⟨left, hplaced, fun id => ?_⟩⟩
  rw [(hplaced.payloadsOf_left id).2, hlen, List.drop_length]

end BlockLedger
