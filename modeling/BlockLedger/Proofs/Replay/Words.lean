import BlockLedger.Proofs.Replay.WordShape

/-!
# Proofs checked on words

Checking a proof with numbers of 64 bits gives the same answer as checking it with natural numbers,
whoever the proof is from (`Words.verify_exact`). What is computed after the check of the shape is
not checked again, and it is the shape that bounds it: a row is half as wide as the row below it,
rounded up, and so the two positions below one of its places are those of the row below or the first
one behind it (`Words.children_fit`). The greatest of all widths is odd, and one less than what does
not fit.

The computation follows the one on natural numbers row by row (`Words.climb_follows`).
-/

namespace BlockLedger

namespace Words

/-! ### The leaf row -/

/-- What is read of the values of a row and the leaves that are left. -/
def plainLeft (r : RowValues × List HeldLeaf) : BlockLedger.RowValues × List HeldLeaf :=
  (r.1.map plainValue, r.2)

theorem leafValues_follows (held : List HeldLeaf) (es : List Entry) :
    Follows plainLeft (leafValues held es) (BlockLedger.leafValues held (es.map Entry.plain)) := by
  induction es generalizing held with
  | nil => exact Follows.ok ([], held)
  | cons e es ih =>
    obtain ⟨position, slot⟩ := e
    rw [List.map_cons, leafValues, BlockLedger.leafValues]
    cases slot with
    | derived => exact Follows.refuse _
    | supplied h =>
      exact (ih held).bind fun r _ => rfl
    | leaf id =>
      simp only [Entry.plain]
      cases takeLeaf id held with
      | none => exact Follows.refuse _
      | some taken =>
        exact (ih taken.2).bind fun r _ => rfl

theorem rowOfLeaves_follows (held : List HeldLeaf) (l : Level) :
    Follows (List.map plainValue) (rowOfLeaves held l) (BlockLedger.rowOfLeaves held l.plain) := by
  rw [rowOfLeaves, BlockLedger.rowOfLeaves]
  refine (leafValues_follows held l.entries).bind fun r _ => ?_
  simp only [plainLeft]
  cases held.find? fun leaf => r.2.any (·.1 = leaf.1) with
  | none => exact Follows.ok r.1
  | some leaf => exact Follows.refuse _

/-! ### Rows above -/

/-- A value is found at a word iff it is found at the number. -/
theorem lookup_plain (values : RowValues) (position : UInt64) :
    (values.map plainValue).lookup position.toNat = values.lookup position := by
  induction values with
  | nil => rfl
  | cons v values ih =>
    have hkey : (position.toNat == v.1.toNat) = (position == v.1) := by
      rw [Bool.eq_iff_iff, beq_iff_eq, beq_iff_eq, UInt64.toNat_inj]
    obtain ⟨key, d⟩ := v
    rw [List.map_cons, plainValue, List.lookup_cons, List.lookup_cons, hkey, ih]

theorem derives_plain (l : Level) (position : UInt64) :
    l.plain.derives position.toNat = l.derives position := by
  rw [BlockLedger.Level.derives, Level.derives, Level.plain, List.any_map]
  congr 1
  funext e
  have hposition : decide (e.position.toNat = position.toNat) = decide (e.position = position) :=
    decide_eq_decide.2 UInt64.toNat_inj
  rw [Function.comp_apply, Entry.plain, hposition]

/-- **The positions below a place fit 64 bits** if the row of the place is half as wide as one whose
width fits. -/
theorem children_fit {below : Level} {above : BlockLedger.Level} {position : Nat}
    (hhalf : above.width = (below.width.toNat + 1) / 2) (h : position < above.width) :
    2 * position + 1 < unsignedLimit := by
  have hlt := toNat_lt_unsignedLimit below.width
  rw [hhalf] at h
  -- even the position behind an odd row is at most its width
  have hright : 2 * position + 1 ≤ below.width.toNat := by omega
  exact Nat.lt_of_le_of_lt hright hlt

theorem derive_follows (level width : UInt64) (values : RowValues) {position : UInt64}
    (hfits : 2 * position.toNat + 1 < unsignedLimit) :
    Follows id (derive level width values position)
      (match BlockLedger.derive width.toNat (values.map plainValue) position.toNat with
        | some h => .ok h
        | none => .error (.missingChild level.toNat position.toNat)) := by
  obtain ⟨left, hleft, hleftNat⟩ := exists_double (Nat.lt_of_succ_lt hfits)
  obtain ⟨right, hright, hrightNat⟩ := exists_next (hleftNat ▸ hfits)
  rw [hleftNat] at hrightNat
  -- both positions are those of the computation on natural numbers, and so the same values are found
  have hlookupLeft := lookup_plain values left
  have hlookupRight := lookup_plain values right
  have hwidth : right < width ↔ 2 * position.toNat + 1 < width.toNat := by
    rw [← hrightNat, UInt64.lt_iff_toNat_lt]
  rw [hleftNat] at hlookupLeft
  rw [hrightNat] at hlookupRight
  rw [derive, hleft, ok_bind, hright, ok_bind, BlockLedger.derive, valuesBelow, hlookupLeft,
    hlookupRight]
  cases values.lookup left with
  | none => exact Follows.refuse _
  | some l =>
    by_cases hlt : right < width
    · simp only [if_pos hlt, if_pos (hwidth.1 hlt), Option.bind_eq_bind, Option.bind_some]
      cases values.lookup right with
      | none => exact Follows.refuse _
      | some r => exact Follows.ok _
    · simp only [if_neg hlt, if_neg (mt hwidth.2 hlt), Option.bind_eq_bind, Option.bind_some]
      exact Follows.ok _

theorem valueAbove_follows {level width : UInt64} {values : RowValues} {e : Entry}
    (hfits : 2 * e.position.toNat + 1 < unsignedLimit) :
    Follows plainValue (valueAbove level width values e)
      (BlockLedger.valueAbove level.toNat width.toNat (values.map plainValue) e.plain) := by
  obtain ⟨position, slot⟩ := e
  rw [valueAbove, BlockLedger.valueAbove]
  cases slot with
  | supplied h => exact Follows.ok (position, h)
  | leaf id => exact Follows.refuse _
  | derived =>
    -- the position is put before the digest once this has been derived
    have hpair : Follows plainValue
        (derive level width values position >>= fun h => pure (position, h))
        (_ >>= fun h => .ok (position.toNat, h)) :=
      (derive_follows level width values hfits).bind fun h _ => Follows.ok (position, h)
    simp only [Entry.plain]
    cases hd : BlockLedger.derive width.toNat (values.map plainValue) position.toNat with
    | none =>
      rw [hd] at hpair
      exact hpair
    | some h =>
      rw [hd] at hpair
      exact hpair

theorem valuesAbove_follows {level : UInt64} {below above : Level} {values : RowValues} {n : Nat}
    (hlevel : level.toNat = n + 1) (hhalf : above.plain.width = (below.width.toNat + 1) / 2)
    (hordered : above.plain.Ordered) :
    Follows (List.map plainValue) (valuesAbove level below.width values above)
      (BlockLedger.valuesAbove level.toNat below.width.toNat (values.map plainValue)
        above.plain) := by
  have hunused : (values.map plainValue).find? (fun v => !above.plain.derives (v.1 / 2)) =
      (values.find? fun v => !above.derives (v.1 / 2)).map plainValue := by
    rw [List.find?_map]
    congr 2
    funext v
    have hdiv : (v.1 / 2).toNat = v.1.toNat / 2 := UInt64.toNat_div v.1 2
    rw [Function.comp_apply, plainValue, ← hdiv, derives_plain]
  rw [valuesAbove, BlockLedger.valuesAbove, hunused]
  cases values.find? fun v => !above.derives (v.1 / 2) with
  | some v =>
    obtain ⟨before, hbefore, hbeforeNat⟩ := exists_before hlevel
    have hlevel' : level.toNat - 1 = before.toNat := by rw [hlevel, hbeforeNat, Nat.add_sub_cancel]
    simp only [Option.map_some, hbefore, ok_bind, hlevel']
    exact Follows.refuse _
  | none =>
    refine Follows.mapM fun e he => ?_
    have hmem : e.plain ∈ above.plain.entries := List.mem_map_of_mem he
    exact valueAbove_follows (children_fit hhalf (hordered.2 e.plain hmem))

/-! ### All rows -/

theorem topValue_follows {done : List Level} {last : Level} (values : RowValues)
    (h : done.length + 1 < unsignedLimit) (level : Nat) :
    Follows id (topValue (done ++ [last]) values)
      (BlockLedger.climb level last.plain (values.map plainValue) []) := by
  have hlookup : (values.map plainValue).lookup 0 = values.lookup 0 := lookup_plain values 0
  rw [topValue, lastRow_eq h, ok_bind, BlockLedger.climb, hlookup, Level.plain]
  cases last.entries with
  | nil => exact Follows.refuse _
  | cons e es =>
    cases es with
    | cons e' es => exact Follows.refuse _
    | nil =>
      cases values.lookup 0 with
      | none => exact Follows.refuse _
      | some h => exact Follows.ite Iff.rfl (fun _ => Follows.refuse _) fun _ => Follows.ok h

theorem climb_follows {done rest : List Level} {below : Level} {index : UInt64} (values : RowValues)
    (hindex : index.toNat = done.length)
    (hcount : (done ++ below :: rest).length < unsignedLimit)
    (hchain : ((below :: rest).map Level.plain).IsChain BlockLedger.Level.Halves)
    (hordered : ∀ l ∈ rest, l.plain.Ordered) :
    Follows id (climb (done ++ below :: rest) index values (below :: rest))
      (BlockLedger.climb (index.toNat + 1) below.plain (values.map plainValue)
        (rest.map Level.plain)) := by
  induction rest generalizing done below index values with
  | nil =>
    rw [List.length_append, List.length_singleton] at hcount
    exact topValue_follows values hcount (index.toNat + 1)
  | cons above rest ih =>
    have hnext : index.toNat + 1 < unsignedLimit := by
      rw [List.length_append, List.length_cons, ← hindex] at hcount
      omega
    obtain ⟨next, hnext, hnextNat⟩ := exists_next hnext
    rw [List.map_cons, List.map_cons, List.isChain_cons_cons] at hchain
    obtain ⟨⟨-, hhalf⟩, hrest⟩ := hchain
    rw [climb, hnext, ok_bind, ok_bind, List.map_cons, BlockLedger.climb, ← hnextNat]
    refine (valuesAbove_follows hnextNat hhalf (hordered above List.mem_cons_self)).bind
      fun valuesOfAbove _ => ?_
    -- the row that the values have been made of joins those behind
    have hrows : done ++ below :: above :: rest = (done ++ [below]) ++ above :: rest :=
      List.append_cons done below _
    have hdone : next.toNat = (done ++ [below]).length := by
      rw [hnextNat, hindex, List.length_append, List.length_singleton]
    rw [hrows] at hcount ⊢
    exact ih valuesOfAbove hdone hcount hrest fun l hl => hordered l (List.mem_cons_of_mem above hl)

/-! ### Whole proofs -/

/-- A proof that passes the check of the shape has few rows. -/
theorem length_levels_of_shaped {p : Proof} (h : p.plain.Shaped) :
    p.levels.length = Nat.clog 2 p.plain.leafCount + 1 ∧ p.levels.length ≤ 65 := by
  have hlength : p.plain.levels.length = p.levels.length := List.length_map _
  have hpos : 0 < p.levels.length := hlength ▸ List.length_pos_of_ne_nil h.levels_ne_nil
  have hclog := h.clog_leafCount
  rw [hlength] at hclog
  have hcount : p.plain.leafCount < 2 ^ 64 := by
    obtain ⟨levels⟩ := p
    cases levels with
    | nil => exact absurd hpos (Nat.lt_irrefl 0)
    | cons leafRow _ => exact leafRow.width.toNat_lt
  have hsmall : Nat.clog 2 p.plain.leafCount ≤ 64 := Nat.clog_le_of_le_pow (Nat.le_of_lt hcount)
  omega

theorem rootFrom_follows (p : Proof) (held : List HeldLeaf) :
    Follows id (p.rootFrom held) (p.plain.rootFrom held) := by
  obtain ⟨levels⟩ := p
  rw [Proof.rootFrom, InclusionProof.rootFrom]
  refine (checkShape_follows levels).andThen fun hshape => ?_
  have hshaped : (Proof.mk levels).plain.Shaped := checkShape_eq_ok_iff.1 hshape
  cases levels with
  | nil => exact absurd rfl hshaped.levels_ne_nil
  | cons leafRow rest =>
    have hfetch : fetch (leafRow :: rest) 0 = .ok leafRow := rfl
    rw [hfetch, ok_bind]
    refine (rowOfLeaves_follows held leafRow).bind fun values _ => ?_
    have hcount : (leafRow :: rest).length < unsignedLimit := by
      have hfew := (length_levels_of_shaped hshaped).2
      exact Nat.lt_of_le_of_lt hfew (by decide)
    have hchain := isChain_iff_getElem?.2 hshaped.width_halves
    have hordered : ∀ l ∈ rest, l.plain.Ordered := fun l hl =>
      hshaped.ordered l.plain (List.mem_map_of_mem (List.mem_cons_of_mem leafRow hl))
    change Follows id (climb ([] ++ leafRow :: rest) 0 values (leafRow :: rest)) _
    exact climb_follows values rfl hcount hchain hordered

/-- **Checking a proof on words is exact.** For every proof, root and list of leaves, the check ends
as that on natural numbers does; so no sum or product exceeds 64 bits, and no place beyond the end
of a list is fetched. The number of rows of a proof whose shape passes is the logarithm of the
number of leaves, rounded up, and one more, which is at most 65. -/
theorem verify_exact (root : Digest) (held : List HeldLeaf) (p : Proof) :
    p.verify root held = refusing (p.plain.verify root held) ∧
      (checkShape p.levels = .ok () →
        p.levels.length = Nat.clog 2 p.plain.leafCount + 1 ∧ p.levels.length ≤ 65) := by
  constructor
  · rw [Proof.verify, InclusionProof.verify, InclusionProof.replay]
    split
    · rfl
    · rcases (rootFrom_follows p held).cases with ⟨h, hx, hy⟩ | ⟨d, hx, hy⟩
      · rw [hx, hy]
        rfl
      · rw [hx, hy]
        rfl
  · intro hpasses
    have hshape : BlockLedger.checkShape p.plain.levels = .ok () := by
      rcases (checkShape_follows p.levels).cases with ⟨_, -, hy⟩ | ⟨d, hx, -⟩
      · exact hy
      · rw [hpasses] at hx
        cases hx
    exact length_levels_of_shaped (checkShape_eq_ok_iff.1 hshape)

/-- Row `k` of a proof that claims as many leaves as a word can count, with an entry at the last
place. -/
def greatestRow (k : Nat) : Level :=
  let width := (unsignedLimit - 1 + (2 ^ k - 1)) / 2 ^ k
  ⟨.ofNat width, [⟨.ofNat (width - 1), if k = 0 then .leaf "a" else .derived⟩]⟩

/-- The proof with these rows, of which there cannot be more. -/
def greatest : Proof := ⟨(List.range 65).map greatestRow⟩

/-- The right place below the last one of row `1` has the greatest number that fits. The proof is
refused for what is missing in the row above that one. -/
theorem verify_exact_greatest :
    checkShape greatest.levels = .ok () ∧
      (greatest.levels.length = 65 ∧ Nat.clog 2 greatest.plain.leafCount = 64) ∧
      refusing (greatest.plain.verify default [("a", [])]) =
        refuse (.missingChild 2 4611686018427387903) := by
  have hpasses : checkShape greatest.levels = .ok () := by decide +kernel
  obtain ⟨hexact, hrows⟩ := verify_exact default [("a", [])] greatest
  have hlength : greatest.levels.length = 65 := rfl
  obtain ⟨hclog, -⟩ := hrows hpasses
  refine ⟨hpasses, ⟨hlength, by omega⟩, ?_⟩
  rw [← hexact]
  decide +kernel

end Words

end BlockLedger
