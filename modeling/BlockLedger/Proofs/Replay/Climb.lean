import BlockLedger.Proofs.Replay.LeafRow
import BlockLedger.Proofs.Replay.Shape

/-!
# Climbing from row to row

One step of a replay makes the values of a row from those of the row below. It succeeds iff every
value below is used and every derived place is fed (`valuesAbove_spec`, `exists_valuesAbove`), and
then it keeps the invariant of the climb: the values of a row are its labels.

The climb ends at a row of width one. That its only entry is not a supplied digest is checked nowhere
but there, and it cannot fail: in each row some entry is not supplied, because in the row above it
the place that uses it is derived (`Level.Used.exists_unsupplied`).
-/

namespace BlockLedger

/-! ### One step -/

/-- The values below a place are the one on the left and the one on the right, which at the end of an
odd row is the one on the left. -/
theorem valuesBelow_eq (width : Nat) (values : RowValues) (q : Nat) :
    valuesBelow width values q = (values.lookup (2 * q)).bind fun left =>
      (values.lookup (rightBelow width q)).map fun right => (left, right) := by
  rw [valuesBelow]
  cases hleft : values.lookup (2 * q) with
  | none => rfl
  | some left =>
    by_cases h : 2 * q + 1 < width
    · rw [rightBelow_of_lt h, Option.bind_some, Option.bind_eq_bind, Option.bind_some, if_pos h]
      cases values.lookup (2 * q + 1) <;> rfl
    · rw [rightBelow_of_le (Nat.not_lt.1 h), Option.bind_some, Option.bind_eq_bind,
        Option.bind_some, if_neg h, hleft]
      rfl

/-- What a step computes for a derived place is the digest of the two below it. -/
theorem derive_eq_digestAbove (width : Nat) (values : RowValues) (q : Nat) :
    derive width values q = digestAbove width (List.lookup · values) q := by
  rw [derive, valuesBelow_eq, digestAbove]
  cases values.lookup (2 * q) with
  | none => rfl
  | some left => cases values.lookup (rightBelow width q) <;> rfl

/-- The value of an entry is its label above the values of the row below. -/
theorem valueAbove_eq_ok_iff {level width : Nat} {values : RowValues} {e : Entry}
    {v : Nat × Digest} :
    valueAbove level width values e = .ok v ↔
      v.1 = e.position ∧ e.labelAbove width (List.lookup · values) = some v.2 := by
  obtain ⟨q, d⟩ := v
  rw [valueAbove, Entry.labelAbove, derive_eq_digestAbove]
  cases e.slot with
  | leaf id => simp
  | derived =>
    cases digestAbove width (List.lookup · values) e.position with
    | none => simp
    | some d' => simp [eq_comm]
  | supplied d' => simp [eq_comm]

/-- Values computed entry by entry are looked up as the entries are. -/
theorem lookup_of_forall₂ {es : List Entry} {next : RowValues} {g : Entry → Option Digest}
    (h : List.Forall₂ (fun e v => v.1 = e.position ∧ g e = some v.2) es next) (q : Nat) :
    next.lookup q = (es.find? (·.position = q)).bind g := by
  induction h with
  | nil => rfl
  | @cons e v es next hev _ ih =>
    obtain ⟨hpos, hg⟩ := hev
    -- entry and value stand at one position, so both lists are searched in step
    by_cases hq : e.position = q
    · rw [List.find?_cons_of_pos (by simpa using hq), Option.bind_some, hg, List.lookup_cons,
        beq_iff_eq.2 (hpos.trans hq).symm]
    · have hne : q ≠ v.1 := fun heq => hq (hpos.symm.trans heq.symm)
      rw [List.find?_cons_of_neg (by simpa using hq), List.lookup_cons, beq_eq_false_iff_ne.2 hne]
      exact ih

theorem positions_of_forall₂ {es : List Entry} {next : RowValues} {g : Entry → Option Digest}
    (h : List.Forall₂ (fun e v => v.1 = e.position ∧ g e = some v.2) es next) :
    next.map (·.1) = es.map (·.position) := by
  induction h with
  | nil => rfl
  | cons hev _ ih => rw [List.map_cons, List.map_cons, hev.1, ih]

theorem Level.derives_iff {l : Level} {q : Nat} :
    l.derives q = true ↔ ∃ e ∈ l.entries, e.position = q ∧ e.slot = .derived := by
  simp [derives]

/-- Every value below finds the place that uses it iff every entry does. -/
theorem find?_unused_eq_none {below above : Level} {values : RowValues}
    {f : Nat → Option Digest} (h : below.Carries values f) :
    (values.find? fun v => !above.derives (v.1 / 2)) = none ↔ below.Used above := by
  -- whether a value is used depends on its position alone
  have hpos : (∀ q ∈ values.map (·.1), above.derives (q / 2) = true) ↔
      ∀ q ∈ below.entries.map (·.position), above.derives (q / 2) = true := by
    rw [h.positions]
  rw [List.forall_mem_map, List.forall_mem_map] at hpos
  rw [List.find?_eq_none, Level.Used, ← hpos]
  simp

/-- The two digests below a place are there iff the two entries are. -/
theorem isSome_digestAbove_iff {below : Level} {values : RowValues} {f : Nat → Option Digest}
    (h : below.Carries values f) {q : Nat} :
    (digestAbove below.width f q).isSome ↔
      below.Has (2 * q) ∧ (2 * q + 1 < below.width → below.Has (2 * q + 1)) := by
  have hsome : (digestAbove below.width f q).isSome ↔
      (f (2 * q)).isSome ∧ (f (rightBelow below.width q)).isSome := by
    rw [digestAbove]
    cases f (2 * q) <;> cases f (rightBelow below.width q) <;> simp
  rw [hsome, h.isSome_iff, h.isSome_iff]
  by_cases hlt : 2 * q + 1 < below.width
  · simp [rightBelow_of_lt hlt, hlt]
  · simp [rightBelow_of_le (Nat.not_lt.1 hlt), hlt]

/-- A step is a look for unused values, and then one value for each entry. -/
theorem valuesAbove_eq_ok_iff {level : Nat} {below above : Level} {values next : RowValues}
    {f : Nat → Option Digest} (hrow : below.Carries values f) :
    valuesAbove level below.width values above = .ok next ↔
      below.Used above ∧ above.entries.mapM (valueAbove level below.width values) = .ok next := by
  rw [valuesAbove, ← find?_unused_eq_none hrow]
  cases values.find? fun v => !above.derives (v.1 / 2) with
  | some v => simp
  | none => simp

/-- An entry can be given a value iff it has a label. -/
theorem exists_valueAbove_iff {level width : Nat} {values : RowValues} {e : Entry} :
    (∃ v, valueAbove level width values e = .ok v) ↔
      (e.labelAbove width (List.lookup · values)).isSome := by
  simp only [valueAbove_eq_ok_iff, Option.isSome_iff_exists]
  refine ⟨?_, ?_⟩
  · rintro ⟨v, -, hv⟩
    exact ⟨v.2, hv⟩
  · rintro ⟨d, hd⟩
    exact ⟨(e.position, d), rfl, hd⟩

/-- **What a step does.** It leaves no value unused, feeds every derived place, and makes the labels
of the next row. -/
theorem valuesAbove_spec {level : Nat} {below above : Level} {values next : RowValues}
    {f : Nat → Option Digest} (hrow : below.Carries values f)
    (h : valuesAbove level below.width values above = .ok next) :
    below.Used above ∧ below.Fed above ∧
      above.Carries next fun q => (above.entryAt? q).bind (Entry.labelAbove below.width f) := by
  have hf : (List.lookup · values) = f := funext hrow.lookup
  obtain ⟨hused, hmap⟩ := (valuesAbove_eq_ok_iff hrow).1 h
  have hall := mapM_eq_ok_iff.1 hmap
  -- the values below are looked up as labels, so those above are the labels above
  simp only [valueAbove_eq_ok_iff, hf] at hall
  refine ⟨hused, fun e he hs => ?_, positions_of_forall₂ hall, lookup_of_forall₂ hall⟩
  have hlabel := exists_valueAbove_iff.1 (exists_mapM_eq_ok_iff.1 ⟨next, hmap⟩ e he)
  rw [hf, Entry.labelAbove, hs] at hlabel
  exact (isSome_digestAbove_iff hrow).1 hlabel

/-- A step that finds what it needs succeeds. -/
theorem exists_valuesAbove {level : Nat} {below above : Level} {values : RowValues}
    {f : Nat → Option Digest} (hrow : below.Carries values f) (hused : below.Used above)
    (hfed : below.Fed above) (hslot : ∀ e ∈ above.entries, ∀ id, e.slot ≠ .leaf id) :
    ∃ next, valuesAbove level below.width values above = .ok next := by
  have hf : (List.lookup · values) = f := funext hrow.lookup
  simp only [valuesAbove_eq_ok_iff hrow, hused, true_and]
  refine exists_mapM_eq_ok_iff.2 fun e he => exists_valueAbove_iff.2 ?_
  rw [hf, Entry.labelAbove]
  cases hs : e.slot with
  | leaf id => exact absurd hs (hslot e he id)
  | derived => exact (isSome_digestAbove_iff hrow).2 (hfed e he hs)
  | supplied d => rfl

/-! ### The climb -/

/-- A row whose values are all used has a place above that is not supplied. -/
theorem Level.Used.exists_unsupplied {below above : Level} (h : below.Used above) {e : Entry}
    (he : e ∈ below.entries) : ∃ e' ∈ above.entries, e'.slot.supplied? = none := by
  obtain ⟨e', he', -, hs⟩ := Level.derives_iff.1 (h e he)
  exact ⟨e', he', by rw [hs]; rfl⟩

/-- In a row of width one there is at most one entry. -/
theorem Level.Ordered.entries_eq_singleton {l : Level} (h : l.Ordered) (hw : l.width = 1)
    {e : Entry} (he : e ∈ l.entries) : l.entries = [e] ∧ e.position = 0 := by
  obtain ⟨hlt, hpos⟩ := h
  rw [hw] at hpos
  refine ⟨?_, Nat.lt_one_iff.1 (hpos e he)⟩
  match hes : l.entries with
  | [] =>
    rw [hes] at he
    cases he
  | [d] =>
    rw [hes, List.mem_singleton] at he
    rw [he]
  | d :: d' :: ds =>
    rw [hes, List.pairwise_cons] at hlt
    have hd' := hpos d' (by rw [hes]; simp)
    have hdd' := hlt.1 d' List.mem_cons_self
    omega

namespace InclusionProof

variable {p : InclusionProof} {held : List HeldLeaf}

/-- A step above a row that carries its labels makes the labels of the next row, if it finds what it
needs. -/
theorem Shaped.exists_next (hshape : p.Shaped) {k : Nat} {below above : Level} {values : RowValues}
    (hb : p.levels[k]? = some below) (ha : p.levels[k + 1]? = some above)
    (hrow : below.Carries values (p.label held k)) (hused : below.Used above)
    (hfed : below.Fed above) :
    ∃ next, valuesAbove (k + 1) below.width values above = .ok next ∧
      above.Carries next (p.label held (k + 1)) := by
  have hslot : ∀ e ∈ above.entries, ∀ id, e.slot ≠ .leaf id :=
    fun e he => (hshape.fitting (k + 1) above ha e he).ne_leaf
  obtain ⟨next, hstep⟩ : ∃ next, valuesAbove (k + 1) below.width values above = .ok next :=
    exists_valuesAbove hrow hused hfed hslot
  obtain ⟨-, -, hnext⟩ := valuesAbove_spec hrow hstep
  have hlabel : p.label held (k + 1) =
      fun q => (above.entryAt? q).bind (Entry.labelAbove below.width (p.label held k)) :=
    funext fun q => label_succ hb ha q
  exact ⟨next, hstep, hlabel ▸ hnext⟩

/-- **The climb.** From a row that carries its labels the climb reaches the top iff from there on all
values are used and all derived places are fed, and it ends with the label of the top. -/
theorem climb_eq_ok_iff (hshape : p.Shaped) {k : Nat} {below : Level} {values : RowValues}
    {rest : List Level} {d : Digest} (hdrop : p.levels.drop k = below :: rest)
    (hrow : below.Carries values (p.label held k))
    (hkey : ∃ e ∈ below.entries, e.slot.supplied? = none) :
    climb (k + 1) below values rest = .ok d ↔
      ((below :: rest).IsChain fun below above => below.Used above ∧ below.Fed above) ∧
        p.label held (p.levels.length - 1) 0 = some d := by
  induction rest generalizing k below values with
  | nil =>
    have hlevel := (getElem?_of_drop hdrop).1
    have hlen : p.levels.length - k = 1 := by
      rw [← List.length_drop, hdrop, List.length_singleton]
    have hlast : p.levels.getLast? = some below := by
      rw [List.getLast?_eq_getElem?, show p.levels.length - 1 = k by omega, hlevel]
    -- the last row has width one, so its one entry is the one that is known not to be supplied
    obtain ⟨e, he, hs⟩ := hkey
    obtain ⟨hes, hzero⟩ := (hshape.ordered below (List.mem_of_getElem? hlevel)).entries_eq_singleton
      (hshape.width_last below hlast) he
    have hsome : (p.label held k 0).isSome := hrow.isSome_iff.2 ⟨e, he, hzero⟩
    obtain ⟨d', hd'⟩ := Option.isSome_iff_exists.1 hsome
    rw [climb, hes, hrow.lookup, hd', show p.levels.length - 1 = k by omega, hd']
    simp [hs]
  | cons above rest ih =>
    obtain ⟨hbelow, hdrop'⟩ := getElem?_of_drop hdrop
    have habove := (getElem?_of_drop hdrop').1
    have hlabel : p.label held (k + 1) =
        fun q => (above.entryAt? q).bind (Entry.labelAbove below.width (p.label held k)) :=
      funext fun q => label_succ hbelow habove q
    rw [climb, bind_eq_ok_iff, List.isChain_cons_cons]
    -- one step keeps the invariant, whichever of the two sides says that it succeeds
    refine ⟨?_, ?_⟩
    · rintro ⟨next, hstep, hclimb⟩
      obtain ⟨hused, hfed, hnext⟩ := valuesAbove_spec hrow hstep
      obtain ⟨e, he, -⟩ := hkey
      obtain ⟨hchain, hd⟩ := (ih hdrop' (hlabel ▸ hnext) (hused.exists_unsupplied he)).1 hclimb
      exact ⟨⟨⟨hused, hfed⟩, hchain⟩, hd⟩
    · rintro ⟨⟨⟨hused, hfed⟩, hchain⟩, hd⟩
      obtain ⟨next, hstep, hnext⟩ := hshape.exists_next hbelow habove hrow hused hfed
      obtain ⟨e, he, -⟩ := hkey
      exact ⟨next, hstep, (ih hdrop' hnext (hused.exists_unsupplied he)).2 ⟨hchain, hd⟩⟩

end InclusionProof

end BlockLedger
