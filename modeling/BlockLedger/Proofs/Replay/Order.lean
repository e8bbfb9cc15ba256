import BlockLedger.Proofs.Replay.LeafRow

/-!
# The order of the leaves at hand

Each place that names a leaf takes the first payload that is left for its identifier, so the order
in which leaves of different identifiers are given does not matter (`Reordered`). Along the entries
of the leaf row the queues of two such orders stay the same (`leafValues_reordered`): an entry finds
its queue empty for both or for neither, and takes the same payload.

Only the leaf that is left over in the end is looked for in the order of the leaves. Its identifier
is the first of which there are more leaves than the row names (`rowOfLeaves_eq`), and that may be
another one in another order.
-/

namespace BlockLedger

/-- **The same leaves in another order**, in which the leaves with one identifier follow one another
as before. -/
structure Reordered (held held' : List HeldLeaf) : Prop where
  perm : held.Perm held'
  queues : ∀ id, held.filter (·.1 = id) = held'.filter (·.1 = id)

/-- **The first identifier at hand** of which there are more leaves than are named. -/
def surplus? (named : List String) (held : List HeldLeaf) : Option String :=
  (held.map (·.1)).find? fun id => named.count id < (held.map (·.1)).count id

/-! ### Queues -/

/-- For each identifier the same payloads are at hand in the same order. -/
def SameQueues (held held' : List HeldLeaf) : Prop := ∀ id, payloadsOf held id = payloadsOf held' id

variable {held held' : List HeldLeaf}

theorem Reordered.sameQueues (h : Reordered held held') : SameQueues held held' := fun id => by
  rw [payloadsOf, payloadsOf, h.queues id]

/-- A leaf is taken from both orders or from neither, and then with the same payload. -/
theorem takeLeaf_reordered (h : SameQueues held held') (id : String) :
    (takeLeaf id held = none ∧ takeLeaf id held' = none) ∨
      ∃ b rest rest', takeLeaf id held = some (b, rest) ∧ takeLeaf id held' = some (b, rest') ∧
        SameQueues rest rest' := by
  cases htake : takeLeaf id held with
  | none =>
    rw [takeLeaf_eq_none_iff, h id, ← takeLeaf_eq_none_iff] at htake
    exact .inl ⟨rfl, htake⟩
  | some taken =>
    obtain ⟨b, rest⟩ := taken
    obtain ⟨hsame, hothers⟩ := payloadsOf_of_takeLeaf htake
    cases htake' : takeLeaf id held' with
    | none =>
      rw [takeLeaf_eq_none_iff, ← h id, hsame] at htake'
      cases htake'
    | some taken' =>
      obtain ⟨b', rest'⟩ := taken'
      obtain ⟨hsame', hothers'⟩ := payloadsOf_of_takeLeaf htake'
      rw [h id, hsame', List.cons.injEq] at hsame
      obtain ⟨rfl, hrest⟩ := hsame
      -- the queue of this identifier has lost its first payload in both orders, no other queue has
      refine .inr ⟨b', rest, rest', rfl, rfl, fun other => ?_⟩
      by_cases hid : other = id
      · rw [hid, hrest]
      · rw [← hothers other hid, ← hothers' other hid, h other]

/-- **The leaf row gets the same values**, or fails for the same reason, and what is left of the
leaves has the same queues. -/
theorem leafValues_reordered (h : SameQueues held held') (es : List Entry) :
    (∃ d, leafValues held es = .error d ∧ leafValues held' es = .error d) ∨
      ∃ values left left', leafValues held es = .ok (values, left) ∧
        leafValues held' es = .ok (values, left') ∧ SameQueues left left' := by
  induction es generalizing held held' with
  | nil => exact .inr ⟨[], held, held', rfl, rfl, h⟩
  | cons e es ih =>
    rw [leafValues, leafValues]
    cases e.slot with
    | derived => exact .inl ⟨_, rfl, rfl⟩
    | supplied d =>
      rcases ih h with ⟨defect, hx, hy⟩ | ⟨values, left, left', hx, hy, hleft⟩
      · exact .inl ⟨defect, by rw [hx]; rfl, by rw [hy]; rfl⟩
      · exact .inr ⟨_, left, left', by rw [hx]; rfl, by rw [hy]; rfl, hleft⟩
    | leaf id =>
      rcases takeLeaf_reordered h id with ⟨hnone, hnone'⟩ | ⟨b, rest, rest', htake, htake', hrest⟩
      · simp only [hnone, hnone']
        exact .inl ⟨_, rfl, rfl⟩
      · simp only [htake, htake']
        rcases ih hrest with ⟨defect, hx, hy⟩ | ⟨values, left, left', hx, hy, hleft⟩
        · exact .inl ⟨defect, by rw [hx]; rfl, by rw [hy]; rfl⟩
        · exact .inr ⟨_, left, left', by rw [hx]; rfl, by rw [hy]; rfl, hleft⟩

/-! ### What is left over -/

/-- A leaf is left over iff there are more leaves of its identifier than places for it. -/
theorem Placed.any_left_iff {l : Level} {left : List HeldLeaf} {values : RowValues}
    (h : Placed held l.entries values left) (id : String) :
    left.any (·.1 = id) = true ↔ l.countLeaf id < (held.map (·.1)).count id := by
  have hleft : left.any (·.1 = id) = true ↔ payloadsOf left id ≠ [] := by
    rw [List.any_eq_true]
    constructor
    · rintro ⟨⟨other, b⟩, hm, hid⟩
      obtain rfl : other = id := of_decide_eq_true hid
      exact List.ne_nil_of_mem (mem_payloadsOf.2 hm)
    · intro hne
      obtain ⟨b, hb⟩ := List.exists_mem_of_ne_nil _ hne
      exact ⟨(id, b), mem_payloadsOf.1 hb, decide_eq_true rfl⟩
  rw [hleft, (h.payloadsOf_left id).2, ne_eq, List.drop_eq_nil_iff, Nat.not_le, length_payloadsOf,
    ← l.length_placesOf, Level.placesOf]

/-- **The row that is made of the leaves**, if its entries can be filled. -/
theorem rowOfLeaves_eq {l : Level} {left : List HeldLeaf} {values : RowValues}
    (h : leafValues held l.entries = .ok (values, left)) :
    rowOfLeaves held l =
      match surplus? l.leafIds held with
      | some id => .error (.missingLeaf id)
      | none => .ok values := by
  have hplaced := leafValues_eq_ok_iff.1 h
  -- the first leaf of which something is left is the first one of which there are too many
  have hfind : (held.find? fun m => left.any (·.1 = m.1)).map (·.1) = surplus? l.leafIds held := by
    rw [surplus?, List.find?_map]
    congr 2
    funext m
    exact Bool.eq_iff_iff.2 ((hplaced.any_left_iff m.1).trans decide_eq_true_iff.symm)
  rw [rowOfLeaves, h, ← hfind]
  cases hfirst : held.find? fun m => left.any (·.1 = m.1) with
  | none => simp only [bind, Except.bind, hfirst, Option.map_none, pure, Except.pure]
  | some m => simp only [bind, Except.bind, hfirst, Option.map_some]

/-- There is a surplus in both orders or in neither. -/
theorem Reordered.surplus?_eq_none_iff (h : Reordered held held') (named : List String) :
    surplus? named held = none ↔ surplus? named held' = none := by
  have hperm : (held.map (·.1)).Perm (held'.map (·.1)) := h.perm.map _
  rw [surplus?, surplus?, List.find?_eq_none, List.find?_eq_none]
  refine forall_congr' fun id => ?_
  rw [hperm.mem_iff, hperm.count_eq]

/-- The leaf row has the same values in both orders or fails for the same reason, unless there is a
surplus. -/
theorem rowOfLeaves_reordered (h : Reordered held held') (l : Level) :
    rowOfLeaves held l = rowOfLeaves held' l ∨
      ∃ id id', surplus? l.leafIds held = some id ∧ surplus? l.leafIds held' = some id' ∧
        rowOfLeaves held l = .error (.missingLeaf id) ∧
        rowOfLeaves held' l = .error (.missingLeaf id') := by
  rcases leafValues_reordered h.sameQueues l.entries with
    ⟨d, hx, hy⟩ | ⟨values, left, left', hx, hy, -⟩
  · refine .inl ?_
    rw [rowOfLeaves, rowOfLeaves, hx, hy]
    rfl
  · rw [rowOfLeaves_eq hx, rowOfLeaves_eq hy]
    have hnone := h.surplus?_eq_none_iff l.leafIds
    cases hs : surplus? l.leafIds held with
    | none =>
      rw [hnone.1 hs]
      exact .inl rfl
    | some id =>
      cases hs' : surplus? l.leafIds held' with
      | none =>
        rw [hnone.2 hs'] at hs
        cases hs
      | some id' => exact .inr ⟨id, id', rfl, rfl, rfl, rfl⟩

/-! ### Whole proofs -/

namespace InclusionProof

theorem rootFrom_reordered (h : Reordered held held') (p : InclusionProof) :
    p.rootFrom held = p.rootFrom held' ∨
      ∃ id id', surplus? p.leafIds held = some id ∧ surplus? p.leafIds held' = some id' ∧
        p.rootFrom held = .error (.missingLeaf id) ∧
        p.rootFrom held' = .error (.missingLeaf id') := by
  obtain ⟨levels⟩ := p
  rw [rootFrom, rootFrom]
  cases checkShape levels with
  | error d => exact .inl rfl
  | ok _ =>
    cases levels with
    | nil => exact .inl rfl
    | cons l ls =>
      rcases rowOfLeaves_reordered h l with heq | ⟨id, id', hs, hs', hx, hy⟩
      · refine .inl ?_
        simp only [heq]
      · refine .inr ⟨id, id', hs, hs', ?_, ?_⟩
        · simp only [hx]
          rfl
        · simp only [hy]
          rfl

/-- **The answer of a check does not depend on the order** of the leaves, as far as the leaves with
one identifier follow one another as before. It is the same result, or the same fault; but if there
are more leaves of several identifiers than the proof names, the one that is named is the first of
them in the order at hand. -/
theorem verify_reordered (root : Digest) (p : InclusionProof) (h : Reordered held held') :
    p.verify root held = p.verify root held' ∨
      ∃ id id', surplus? p.leafIds held = some id ∧ surplus? p.leafIds held' = some id' ∧
        p.verify root held = .error (.malformed (.missingLeaf id)) ∧
        p.verify root held' = .error (.malformed (.missingLeaf id')) := by
  rw [verify, verify, replay, replay, h.perm.isEmpty_eq]
  split
  · exact .inl rfl
  · rcases rootFrom_reordered h p with heq | ⟨id, id', hs, hs', hx, hy⟩
    · rw [heq]
      exact .inl rfl
    · rw [hx, hy]
      exact .inr ⟨id, id', hs, hs', rfl, rfl⟩

/-- Five leaves for a proof that names one of them: four are left over, and the first of these is
another one in the other order. -/
theorem verify_reordered_surplus :
    let p : InclusionProof := ⟨[⟨1, [⟨0, .leaf "a"⟩]⟩]⟩
    let held : List HeldLeaf := [("b", [1]), ("a", [2]), ("c", [3]), ("b", [4]), ("a", [5])]
    let held' : List HeldLeaf := [("a", [2]), ("c", [3]), ("a", [5]), ("b", [1]), ("b", [4])]
    Reordered held held' ∧
      surplus? p.leafIds held = some "b" ∧ surplus? p.leafIds held' = some "a" ∧
      (p.verify default held = p.verify default held' ∨
        ∃ id id', surplus? p.leafIds held = some id ∧ surplus? p.leafIds held' = some id' ∧
          p.verify default held = .error (.malformed (.missingLeaf id)) ∧
          p.verify default held' = .error (.malformed (.missingLeaf id'))) := by
  intro p held held'
  have hreordered : Reordered held held' := by
    refine ⟨by decide, fun id => ?_⟩
    by_cases ha : "a" = id
    · subst ha
      decide
    · by_cases hb : "b" = id
      · subst hb
        decide
      · simp [held, held', List.filter_cons, ha, hb]
  exact ⟨hreordered, by decide, by decide, verify_reordered default p hreordered⟩

end InclusionProof

end BlockLedger
