import BlockLedger.Proofs.Request.Bundles

/-!
# What a generated proof holds

A proof is generated from lists of marks, row by row. What it holds can be said of each place alone,
without marks: a place is on a way to the root iff the first leaf with a requested identifier lies
under it (`Tree.OnWay`, `Tree.marked_iff_onWay`). In row `k` this is the leaf whose position, halved
`k` times, is that of the place. Which entries belong in a row then depends on the places on a way
and on nothing else (`Tree.Belongs`).

The entries of a row ascend, so a row is determined by what belongs in it, and a request has one
answer (`Tree.Answers.unique`). Two requests for the same identifiers lead through the same places;
so they have the same answer, in whichever order and however often they name them
(`Tree.prove_content`).
-/

namespace BlockLedger

namespace Tree

variable {t : Tree} {ids others : List String} {k q : Nat} {p p' : InclusionProof}

/-! ### What belongs in a proof -/

/-- **A place on a way to the root**: the first leaf with one of the identifiers lies under it. -/
def OnWay (t : Tree) (ids : List String) (k q : Nat) : Prop :=
  ∃ id ∈ ids, ∃ i, t.positionOf? id = some i ∧ i / 2 ^ k = q

/-- **The entries that belong in row `k`** of the proof for a request: the leaves asked for, the
places on a way above them, and beside these, with the digests of the tree, the places on no way. -/
inductive Belongs (t : Tree) (ids : List String) : Nat → Entry → Prop
  | leaf {id : String} {q : Nat} (hid : id ∈ ids) (hq : t.positionOf? id = some q) :
    Belongs t ids 0 ⟨q, .leaf id⟩
  | derived {k q : Nat} (hway : t.OnWay ids (k + 1) q) : Belongs t ids (k + 1) ⟨q, .derived⟩
  | supplied {k q : Nat} {d : Digest} (hnot : ¬ t.OnWay ids k q)
    (hsibling : t.OnWay ids k (q ^^^ 1)) (hd : t.hashAt? k q = some d) :
    Belongs t ids k ⟨q, .supplied d⟩

/-- **A proof that answers a request**: it has the rows of the tree, and in each of them, in
ascending order, the entries that belong there and no others. -/
structure Answers (t : Tree) (ids : List String) (p : InclusionProof) : Prop where
  height : p.levels.length = t.height
  width : ∀ (k : Nat) (l : Level), p.levels[k]? = some l → l.width = t.width k
  ascending : ∀ (k : Nat) (l : Level), p.levels[k]? = some l →
    l.entries.Pairwise (·.position < ·.position)
  entries : ∀ (k : Nat) (l : Level), p.levels[k]? = some l →
    ∀ e, e ∈ l.entries ↔ t.Belongs ids k e

/-! ### Marks and ways -/

/-- What is on a way is so because of one of the two places below it. -/
theorem onWay_succ : t.OnWay ids (k + 1) q ↔ t.OnWay ids k (2 * q) ∨ t.OnWay ids k (2 * q + 1) := by
  have hhalf : ∀ i, i / 2 ^ (k + 1) = q ↔ i / 2 ^ k = 2 * q ∨ i / 2 ^ k = 2 * q + 1 := by
    intro i
    rw [Nat.pow_succ, ← Nat.div_div_eq_div_mul]
    omega
  simp only [OnWay, hhalf, and_or_left, exists_or]

/-- **The marked places are those on a way.** The induction goes upwards from the leaves. -/
theorem marked_iff_onWay : t.Marked (ids.filterMap t.positionOf?) k q ↔ t.OnWay ids k q := by
  induction k generalizing q with
  | zero =>
    rw [marked_zero, List.mem_filterMap]
    constructor
    · rintro ⟨⟨id, hid, hq⟩, -⟩
      exact ⟨id, hid, q, hq, Nat.div_one q⟩
    · rintro ⟨id, hid, i, hi, hq⟩
      rw [Nat.pow_zero, Nat.div_one] at hq
      subst hq
      have hmem : i ∈ ids.filterMap t.positionOf? := List.mem_filterMap.2 ⟨id, hid, hi⟩
      exact ⟨⟨id, hid, hi⟩, (t.firstPositions_of_ids ids).lt_leafCount hmem⟩
  | succ k ih => rw [marked_succ, onWay_succ, ih, ih]

/-- A place of the lowest row is on a way iff it is the first one for an identifier asked for. -/
theorem onWay_zero : t.OnWay ids 0 q ↔ ∃ id ∈ ids, t.positionOf? id = some q := by
  constructor
  · rintro ⟨id, hid, i, hi, hq⟩
    rw [Nat.pow_zero, Nat.div_one] at hq
    exact ⟨id, hid, hq ▸ hi⟩
  · rintro ⟨id, hid, hq⟩
    exact ⟨id, hid, q, hq, Nat.div_one q⟩

/-- **The entries of a generated proof** are those that belong in it. -/
theorem mem_entries_iff_belongs {l : Level}
    (hl : (t.proofAt (ids.filterMap t.positionOf?)).levels[k]? = some l) {e : Entry} :
    e ∈ l.entries ↔ t.Belongs ids k e := by
  obtain ⟨q, slot⟩ := e
  simp only [mem_entries_proofAt hl, marked_iff_onWay]
  constructor
  · rintro ⟨s, hs, ⟨hway, rfl⟩ | ⟨hnot, hsibling, rfl⟩⟩
    · -- a place on a way is a leaf or derived, depending on the row
      cases k with
      | zero =>
        obtain ⟨id, hid, hq⟩ := onWay_zero.1 hway
        obtain ⟨leaf, hleaf, rfl⟩ := exists_leaf_of_positionOf? hq
        rw [at?_zero, hleaf, Option.map_some] at hs
        cases hs
        exact .leaf hid hq
      | succ k =>
        rw [slot_of_at?_succ hs]
        exact .derived hway
    · have hd : t.hashAt? k q = some s.hash := by rw [hashAt?, hs, Option.map_some]
      exact .supplied hnot hsibling hd
  · intro hbelongs
    cases hbelongs with
    | @leaf id q hid hq =>
      obtain ⟨leaf, hleaf, rfl⟩ := exists_leaf_of_positionOf? hq
      refine ⟨.leaf q leaf, ?_, .inl ⟨onWay_zero.2 ⟨leaf.id, hid, hq⟩, rfl⟩⟩
      rw [at?_zero, hleaf, Option.map_some]
    | @derived k q hway =>
      have hlt : q < t.width (k + 1) := (marked_iff_onWay.2 hway).lt_width (level_proofAt hl).1
      obtain ⟨s, hs⟩ := exists_at? hlt
      exact ⟨s, hs, .inl ⟨hway, (slot_of_at?_succ hs).symm⟩⟩
    | @supplied _ q d hnot hsibling hd =>
      obtain ⟨s, hs, rfl⟩ := Option.map_eq_some_iff.1 hd
      exact ⟨s, hs, .inr ⟨hnot, hsibling, rfl⟩⟩

theorem answers_proofAt (t : Tree) (ids : List String) :
    t.Answers ids (t.proofAt (ids.filterMap t.positionOf?)) where
  height := length_levels_proofAt t _
  width k l hl := width_level_proofAt hl
  ascending k l hl := by
    obtain ⟨-, rfl⟩ := level_proofAt hl
    exact (ordered_levelFor _ _).1
  entries k l hl e := mem_entries_iff_belongs hl

/-! ### One answer -/

/-- Rows of one width are the same if they have the same entries, since these ascend. -/
theorem level_eq_of_mem_iff {l l' : Level} (hwidth : l.width = l'.width)
    (h : l.entries.Pairwise (·.position < ·.position))
    (h' : l'.entries.Pairwise (·.position < ·.position))
    (hmem : ∀ e, e ∈ l.entries ↔ e ∈ l'.entries) : l = l' := by
  have hnodup : ∀ {es : List Entry}, es.Pairwise (·.position < ·.position) → es.Nodup :=
    fun hes => hes.imp fun hlt heq => Nat.ne_of_lt hlt (congrArg Entry.position heq)
  have hperm : l.entries.Perm l'.entries :=
    (List.perm_ext_iff_of_nodup (hnodup h) (hnodup h')).2 hmem
  have hentries : l.entries = l'.entries :=
    hperm.eq_of_pairwise (fun a b _ _ hab hba => absurd hab (Nat.lt_asymm hba)) h h'
  obtain ⟨w, es⟩ := l
  obtain ⟨w', es'⟩ := l'
  subst hwidth hentries
  rfl

/-- **There is one answer to a request.** -/
theorem Answers.unique (h : t.Answers ids p) (h' : t.Answers ids p') : p = p' := by
  have hlevels : p.levels = p'.levels := by
    apply List.ext_getElem (h.height.trans h'.height.symm)
    intro k hk hk'
    have hl : p.levels[k]? = some p.levels[k] := List.getElem?_eq_getElem hk
    have hl' : p'.levels[k]? = some p'.levels[k] := List.getElem?_eq_getElem hk'
    apply level_eq_of_mem_iff
    · rw [h.width k _ hl, h'.width k _ hl']
    · exact h.ascending k _ hl
    · exact h'.ascending k _ hl'
    · intro e
      rw [h.entries k _ hl, h'.entries k _ hl']
  cases p
  cases p'
  exact congrArg InclusionProof.mk hlevels

/-! ### Requests for the same leaves -/

/-- Ways depend on which identifiers are asked for, and not on their order. -/
theorem onWay_congr (h : ∀ id, id ∈ others ↔ id ∈ ids) : t.OnWay others k q ↔ t.OnWay ids k q := by
  simp only [OnWay, h]

theorem Belongs.congr (h : ∀ id, id ∈ others ↔ id ∈ ids) {e : Entry} (he : t.Belongs others k e) :
    t.Belongs ids k e := by
  cases he with
  | leaf hid hq => exact .leaf ((h _).1 hid) hq
  | derived hway => exact .derived ((onWay_congr h).1 hway)
  | supplied hnot hsibling hd =>
    exact .supplied (mt (onWay_congr h).2 hnot) ((onWay_congr h).1 hsibling) hd

theorem Answers.congr (h : ∀ id, id ∈ others ↔ id ∈ ids) (hp : t.Answers others p) :
    t.Answers ids p where
  height := hp.height
  width := hp.width
  ascending := hp.ascending
  entries k l hl e := by
    rw [hp.entries k l hl]
    exact ⟨Belongs.congr h, Belongs.congr fun id => (h id).symm⟩

/-- **What a request is answered with.** It is refused for one of three reasons: there are no
leaves, else the first identifier asked for that no leaf has, else that none is asked for. Otherwise
there is a proof, the one with the rows of the tree and in each of them the entries that belong
there. So requests for the same leaves have the same answer, in any order and with any repetitions.
-/
theorem prove_content (t : Tree) (ids : List String) :
    (∀ f, t.prove ids = .error f ↔ f.Arises (t.leaves.map Leaf.id) ids) ∧
      (ids ≠ [] → (∀ id ∈ ids, id ∈ t.leaves.map Leaf.id) →
        ∃ p, t.prove ids = .ok p ∧ t.Answers ids p ∧ ∀ p', t.Answers ids p' → p' = p) ∧
      ∀ others, (∀ id ∈ ids, id ∈ t.leaves.map Leaf.id) → (∀ id, id ∈ others ↔ id ∈ ids) →
        t.prove others = t.prove ids := by
  refine ⟨fun f => prove_eq_error_iff, fun hne hin => ?_, fun others hin hsame => ?_⟩
  · have hanswers := answers_proofAt t ids
    exact ⟨_, prove_eq_ok hne hin, hanswers, fun p' hp' => hp'.unique hanswers⟩
  · by_cases hne : ids = []
    · -- then the other request is empty as well
      have hother : others = [] := by
        rw [List.eq_nil_iff_forall_not_mem]
        intro id hid
        rw [hsame, hne] at hid
        exact List.not_mem_nil hid
      rw [hne, hother]
    · have hne' : others ≠ [] := by
        obtain ⟨id, hid⟩ := List.exists_mem_of_ne_nil ids hne
        exact List.ne_nil_of_mem ((hsame id).2 hid)
      have hin' : ∀ id ∈ others, id ∈ t.leaves.map Leaf.id :=
        fun id hid => hin id ((hsame id).1 hid)
      have hproof := (answers_proofAt t ids).unique ((answers_proofAt t others).congr hsame)
      rw [prove_eq_ok hne hin, prove_eq_ok hne' hin', hproof]

/-- Two of five leaves, in another order and with a repetition. One of them is the last leaf of an
odd row, and the other one shares its identifier with a later leaf. -/
theorem prove_content_repeated :
    let t := build [("a", [1]), ("b", [2]), ("c", [3]), ("b", [4]), ("d", [5])]
    (∀ id ∈ ["d", "b", "d"], id ∈ t.leaves.map Leaf.id) ∧
      (∀ id, id ∈ ["b", "d"] ↔ id ∈ ["d", "b", "d"]) ∧
      t.prove ["b", "d"] = t.prove ["d", "b", "d"] ∧
      ∃ p, t.prove ["d", "b", "d"] = .ok p ∧ t.Answers ["d", "b", "d"] p := by
  intro t
  have hin : ∀ id ∈ ["d", "b", "d"], id ∈ t.leaves.map Leaf.id := by
    rw [ids_build]
    decide
  have hsame : ∀ id, id ∈ ["b", "d"] ↔ id ∈ ["d", "b", "d"] := by
    intro id
    simp only [List.mem_cons, List.not_mem_nil, or_false]
    tauto
  obtain ⟨-, hanswered, hequal⟩ := prove_content t ["d", "b", "d"]
  obtain ⟨p, hp, hanswers, -⟩ := hanswered (by decide) hin
  exact ⟨hin, hsame, hequal _ hin hsame, p, hp, hanswers⟩

end Tree

end BlockLedger
