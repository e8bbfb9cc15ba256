import BlockLedger.Proofs.Tree.Descent
import Mathlib.Data.List.Induction

/-!
# What a root hash commits to

The hash of a subtree is made of what stands below it and of nothing else. So it is determined by
the payloads to which the ways down lead (`Subtree.hash_eq_of_leafAlong`), and it determines them in
turn, unless two different byte strings that have been hashed have one digest: two subtrees with the
same hash are then walked down side by side (`Subtree.leafAlong_of_hash_eq`). The invariant of the
walk is that the hashes of the two subtrees are the same; it is kept because the inputs of the same
digest are the same string, so that both subtrees are leaves or both have children
(`Subtree.leaf_of_hash_eq`, `Subtree.children_of_hash_eq`).

The ways down from a place of a tree are the digits of the numbers whose high digits are those of
the place (`exists_turnsTo`). So two trees of one height have the same hash at a place iff these
numbers lead to the same payloads in both of them (`Tree.hashAt?_eq_of_leafToward?`,
`Tree.leafToward?_of_hashAt?_eq`), and at the root this is said of all numbers with so many digits
(`Tree.rootHash?_eq_iff_readsAs`). The last subtree of an odd row counts twice, so lists of
different lengths can have one root; lists of one length cannot.
-/

namespace BlockLedger

/-- Without a clash, inputs with one digest are one input. -/
theorem eq_of_hash_eq {inputs : List Bytes} (hno : ¬ Clash inputs) {a b : Bytes} (ha : a ∈ inputs)
    (hb : b ∈ inputs) (h : Digest.hash a = Digest.hash b) : a = b := by
  by_contra hne
  exact hno ⟨a, ha, b, hb, hne, h⟩

/-! ### All ways down -/

/-- **Every way down is that to some number**, whose digits before it can be chosen freely. -/
theorem exists_turnsTo (q : Nat) (turns : List Bool) :
    ∃ i, i / 2 ^ turns.length = q ∧ turnsTo turns.length i = turns := by
  induction turns using List.reverseRecOn with
  | nil => exact ⟨q, by rw [List.length_nil, Nat.pow_zero, Nat.div_one], rfl⟩
  | append_singleton turns b ih =>
    obtain ⟨i, hi, hturns⟩ := ih
    rw [List.length_append, List.length_singleton]
    -- one more digit behind those of the number found so far
    cases b with
    | false =>
      have hhalf : 2 * i / 2 = i := by omega
      refine ⟨2 * i, ?_, ?_⟩
      · rw [Nat.pow_succ', ← Nat.div_div_eq_div_mul, hhalf, hi]
      · rw [turnsTo_succ, hhalf, hturns, testBit_zero_left]
    | true =>
      have hhalf : (2 * i + 1) / 2 = i := by omega
      refine ⟨2 * i + 1, ?_, ?_⟩
      · rw [Nat.pow_succ', ← Nat.div_div_eq_div_mul, hhalf, hi]
      · rw [turnsTo_succ, hhalf, hturns, testBit_zero_right]

/-- The turns to a number are those to its high digits and those that its low digits make. -/
theorem turnsTo_add (d k i : Nat) : turnsTo (d + k) i = turnsTo d (i / 2 ^ k) ++ turnsTo k i := by
  induction k generalizing i with
  | zero =>
    rw [Nat.pow_zero, Nat.div_one]
    exact (List.append_nil _).symm
  | succ k ih =>
    have hdiv : i / 2 / 2 ^ k = i / 2 ^ (k + 1) := by
      rw [Nat.div_div_eq_div_mul, ← Nat.pow_succ']
    rw [← Nat.add_assoc, turnsTo_succ, ih, turnsTo_succ k, hdiv, List.append_assoc]

namespace Subtree

variable {inputs : List Bytes} {s s' : Subtree}

/-! ### Inputs of one digest -/

/-- **A subtree with the digest of a pair** has two children with the digests of the pair. -/
theorem children_of_hash_eq (hno : ¬ Clash inputs) (hsound : s.Sound)
    (hs : ∀ x ∈ s.hashed, x ∈ inputs) {left right : Digest}
    (hin : Digest.pairInput left right ∈ inputs) (h : s.hash = .ofPair left right) :
    ∃ a b, s.child false = some a ∧ s.child true = some b ∧ a.hash = left ∧ b.hash = right := by
  cases s with
  | leaf q l =>
    -- a payload and a pair are hashed with different texts in front
    rw [hash_leaf, l.hash_eq] at h
    have heq := eq_of_hash_eq hno (hs _ List.mem_cons_self) hin h
    exact absurd heq (Digest.payloadInput_ne_pairInput _ _ _)
  | lone c d =>
    obtain ⟨rfl, -⟩ := hsound
    have heq := eq_of_hash_eq hno (hs _ List.mem_cons_self) hin h
    obtain ⟨hleft, hright⟩ := Digest.pairInput_inj heq
    exact ⟨c, c, rfl, rfl, hleft, hright⟩
  | pair l r d =>
    obtain ⟨rfl, -, -⟩ := hsound
    have heq := eq_of_hash_eq hno (hs _ List.mem_cons_self) hin h
    obtain ⟨hleft, hright⟩ := Digest.pairInput_inj heq
    exact ⟨l, r, rfl, rfl, hleft, hright⟩

/-- **A subtree with the digest of a payload** is a leaf with this payload. -/
theorem leaf_of_hash_eq (hno : ¬ Clash inputs) (hsound : s.Sound)
    (hs : ∀ x ∈ s.hashed, x ∈ inputs) {b : Bytes} (hin : Digest.payloadInput b ∈ inputs)
    (h : s.hash = .ofPayload b) : ∃ q l, s = .leaf q l ∧ l.payload = b := by
  cases s with
  | leaf q l =>
    rw [hash_leaf, l.hash_eq] at h
    have heq := eq_of_hash_eq hno (hs _ List.mem_cons_self) hin h
    exact ⟨q, l, rfl, Digest.payloadInput_inj heq⟩
  | lone c d =>
    obtain ⟨rfl, -⟩ := hsound
    have heq := eq_of_hash_eq hno (hs _ List.mem_cons_self) hin h
    exact absurd heq.symm (Digest.payloadInput_ne_pairInput _ _ _)
  | pair l r d =>
    obtain ⟨rfl, -, -⟩ := hsound
    have heq := eq_of_hash_eq hno (hs _ List.mem_cons_self) hin h
    exact absurd heq.symm (Digest.payloadInput_ne_pairInput _ _ _)

/-- A sound subtree of the given height, for which no other strings have been hashed than the given
ones. -/
structure MadeOf (inputs : List Bytes) (k : Nat) (s : Subtree) : Prop where
  height : s.HasHeight k
  sound : s.Sound
  hashed : ∀ x ∈ s.hashed, x ∈ inputs

theorem MadeOf.child {k : Nat} (h : s.MadeOf inputs (k + 1)) {turn : Bool} {c : Subtree}
    (hc : s.child turn = some c) : c.MadeOf inputs k where
  height := h.height.child hc
  sound := h.sound.child hc
  hashed x hx := h.hashed x (mem_hashed_of_child hc hx)

theorem MadeOf.of_lone {k : Nat} {c : Subtree} {d : Digest}
    (h : (lone c d).MadeOf inputs (k + 1)) : c.MadeOf inputs k :=
  h.child (show (lone c d).child false = some c from rfl)

theorem MadeOf.of_left {k : Nat} {l r : Subtree} {d : Digest}
    (h : (pair l r d).MadeOf inputs (k + 1)) : l.MadeOf inputs k :=
  h.child (show (pair l r d).child false = some l from rfl)

theorem MadeOf.of_right {k : Nat} {l r : Subtree} {d : Digest}
    (h : (pair l r d).MadeOf inputs (k + 1)) : r.MadeOf inputs k :=
  h.child (show (pair l r d).child true = some r from rfl)

/-- An inner subtree has two children, the same one twice if it is alone, and its hash is that of
theirs. -/
theorem MadeOf.exists_children {k : Nat} (h : s.MadeOf inputs (k + 1)) :
    ∃ a b, s.child false = some a ∧ s.child true = some b ∧ s.hash = .ofPair a.hash b.hash ∧
      Digest.pairInput a.hash b.hash ∈ inputs := by
  obtain ⟨hheight, hsound, hhashed⟩ := h
  cases hheight with
  | @lone c _ _ d => exact ⟨c, c, rfl, rfl, hsound.1, hhashed _ List.mem_cons_self⟩
  | @pair l r _ _ _ d => exact ⟨l, r, rfl, rfl, hsound.1, hhashed _ List.mem_cons_self⟩

/-! ### Two subtrees side by side -/

/-- **The payloads below determine the hash.** -/
theorem hash_eq_of_leafAlong {k : Nat} (h : s.MadeOf inputs k) (h' : s'.MadeOf inputs k)
    (hpayload : ∀ turns : List Bool, turns.length = k →
      (s.leafAlong turns).payload = (s'.leafAlong turns).payload) : s.hash = s'.hash := by
  induction k generalizing s s' with
  | zero =>
    cases h.height with
    | leaf q l =>
      cases h'.height with
      | leaf q' l' =>
        have heq : l.payload = l'.payload := hpayload [] rfl
        rw [hash_leaf, hash_leaf, l.hash_eq, l'.hash_eq, heq]
  | succ k ih =>
    obtain ⟨a, b, ha, hb, hab, -⟩ := h.exists_children
    obtain ⟨a', b', ha', hb', hab', -⟩ := h'.exists_children
    -- a way down from a child is one from above with one more turn in front
    have hleft : a.hash = a'.hash := by
      refine ih (h.child ha) (h'.child ha') fun turns hturns => ?_
      have hway := hpayload (false :: turns) (by rw [List.length_cons, hturns])
      rwa [leafAlong_of_child ha, leafAlong_of_child ha'] at hway
    have hright : b.hash = b'.hash := by
      refine ih (h.child hb) (h'.child hb') fun turns hturns => ?_
      have hway := hpayload (true :: turns) (by rw [List.length_cons, hturns])
      rwa [leafAlong_of_child hb, leafAlong_of_child hb'] at hway
    rw [hab, hab', hleft, hright]

/-- Children of subtrees with the same hash have the same hashes. -/
theorem MadeOf.child_hash_eq (hno : ¬ Clash inputs) {k k' : Nat} (h : s.MadeOf inputs (k + 1))
    (h' : s'.MadeOf inputs k') (heq : s.hash = s'.hash) (turn : Bool) :
    ∃ c c', s.child turn = some c ∧ s'.child turn = some c' ∧ c.hash = c'.hash := by
  obtain ⟨a, b, ha, hb, hab, hin⟩ := h.exists_children
  obtain ⟨a', b', ha', hb', hleft, hright⟩ :=
    children_of_hash_eq hno h'.sound h'.hashed hin (heq.symm.trans hab)
  cases turn with
  | false => exact ⟨a, a', ha, ha', hleft.symm⟩
  | true => exact ⟨b, b', hb, hb', hright.symm⟩

/-- **The hash determines the height and the payloads below**, unless there is a clash. -/
theorem leafAlong_of_hash_eq (hno : ¬ Clash inputs) {k k' : Nat} (h : s.MadeOf inputs k)
    (h' : s'.MadeOf inputs k') (heq : s.hash = s'.hash) :
    k = k' ∧ ∀ turns : List Bool, turns.length = k →
      (s.leafAlong turns).payload = (s'.leafAlong turns).payload := by
  induction k generalizing s s' k' with
  | zero =>
    obtain ⟨hheight, -, hhashed⟩ := h
    cases hheight with
    | leaf q l =>
      have hin : Digest.payloadInput l.payload ∈ inputs := hhashed _ List.mem_cons_self
      obtain ⟨q', l', rfl, hpayload⟩ :=
        leaf_of_hash_eq hno h'.sound h'.hashed hin (heq.symm.trans l.hash_eq)
      cases h'.height
      exact ⟨rfl, fun turns _ => hpayload.symm⟩
  | succ k ih =>
    cases k' with
    | zero =>
      -- a leaf has no children
      obtain ⟨-, c', -, hc', -⟩ := h.child_hash_eq hno h' heq false
      cases h'.height
      cases hc'
    | succ k' =>
      obtain ⟨a, a', ha, ha', hfirst⟩ := h.child_hash_eq hno h' heq false
      have hk : k = k' := (ih (h.child ha) (h'.child ha') hfirst).1
      refine ⟨congrArg (· + 1) hk, fun turns hturns => ?_⟩
      cases turns with
      | nil => cases hturns
      | cons turn turns =>
        obtain ⟨c, c', hc, hc', hchild⟩ := h.child_hash_eq hno h' heq turn
        rw [leafAlong_of_child hc, leafAlong_of_child hc']
        exact (ih (h.child hc) (h'.child hc') hchild).2 turns (Nat.succ.inj hturns)

end Subtree

namespace Tree

variable {t u : Tree}

/-! ### Places of a tree -/

theorem exists_root? (h : 0 < t.height) : ∃ r, t.root? = some r := by
  rw [root?_eq_at? h]
  refine exists_at? ?_
  rw [width_last h]
  exact Nat.one_pos

/-- What is hashed for a subtree of a tree is hashed for the tree. -/
theorem mem_hashed_of_at? {k q : Nat} {s : Subtree} (h : t.at? k q = some s) {x : Bytes}
    (hx : x ∈ s.hashed) : x ∈ t.hashed := by
  have hk := lt_height_of_at? h
  obtain ⟨r, hr⟩ := exists_root? (t := t) (by omega)
  -- the subtree is reached from the root, and each turn leads to fewer inputs
  have hway := descend_turnsTo hr (d := t.height - (k + 1)) (by omega) (lt_width_of_at? h)
  rw [h] at hway
  rw [hashed_of_root? hr]
  exact Subtree.descend_induction (P := fun s => ∀ x ∈ s.hashed, x ∈ r.hashed)
    (fun s b c hs hc x hx => hs x (Subtree.mem_hashed_of_child hc hx)) (fun x hx => hx) hway x hx

/-- A subtree of a tree has the height of its row. -/
theorem madeOf_at? {k q : Nat} {s : Subtree} (h : t.at? k q = some s) {inputs : List Bytes}
    (hin : ∀ x ∈ t.hashed, x ∈ inputs) : s.MadeOf inputs k where
  height := hasHeight_at? h
  sound := sound_at? h
  hashed x hx := hin x (mem_hashed_of_at? h hx)

theorem madeOf_left {k q : Nat} {s : Subtree} (h : t.at? k q = some s) :
    s.MadeOf (t.hashed ++ u.hashed) k :=
  madeOf_at? h fun _ hx => List.mem_append_left _ hx

theorem madeOf_right {k q : Nat} {s : Subtree} (h : u.at? k q = some s) :
    s.MadeOf (t.hashed ++ u.hashed) k :=
  madeOf_at? h fun _ hx => List.mem_append_right _ hx

/-- A number leads through the place that its high digits name, and its low digits lead on from
there. -/
theorem leafToward?_of_at? {k i : Nat} {s : Subtree} (h : t.at? k (i / 2 ^ k) = some s) :
    t.leafToward? i = some (s.leafAlong (turnsTo k i)) := by
  have hk := lt_height_of_at? h
  obtain ⟨r, hr⟩ := exists_root? (Nat.zero_lt_of_lt hk)
  have hway := descend_turnsTo hr (d := t.height - (k + 1)) (by omega) (lt_width_of_at? h)
  rw [h] at hway
  have hdigits : t.height - 1 = t.height - (k + 1) + k := by omega
  rw [leafToward?, hr, Option.map_some, hdigits, turnsTo_add, Subtree.leafAlong_of_descend hway]

/-- **Trees that lead to the same payloads below a place have the same hash there.** -/
theorem hashAt?_eq_of_leafToward? {k q : Nat} (ht : q < t.width k) (hu : q < u.width k)
    (h : ∀ i, i / 2 ^ k = q →
      (t.leafToward? i).map Leaf.payload = (u.leafToward? i).map Leaf.payload) :
    t.hashAt? k q = u.hashAt? k q := by
  obtain ⟨a, ha⟩ := exists_at? ht
  obtain ⟨b, hb⟩ := exists_at? hu
  rw [hashAt?, hashAt?, ha, hb, Option.map_some, Option.map_some, Option.some.injEq]
  refine Subtree.hash_eq_of_leafAlong (madeOf_left (u := u) ha) (madeOf_right hb) ?_
  intro turns hturns
  -- the way down from the place is that to some number
  obtain ⟨i, hi, hway⟩ := exists_turnsTo q turns
  rw [hturns] at hi hway
  have hpayload := h i hi
  rw [leafToward?_of_at? (hi ▸ ha), leafToward?_of_at? (hi ▸ hb), hway, Option.map_some,
    Option.map_some, Option.some.injEq] at hpayload
  exact hpayload

/-- **Trees with the same hash at a place lead to the same payloads below it**, unless there is a
clash. -/
theorem leafToward?_of_hashAt?_eq (hno : ¬ Clash (t.hashed ++ u.hashed)) {k q : Nat}
    (ht : q < t.width k) (h : t.hashAt? k q = u.hashAt? k q) {i : Nat} (hi : i / 2 ^ k = q) :
    (t.leafToward? i).map Leaf.payload = (u.leafToward? i).map Leaf.payload := by
  obtain ⟨a, ha⟩ := exists_at? ht
  rw [hashAt?, ha, Option.map_some] at h
  obtain ⟨b, hb, hab⟩ := Option.map_eq_some_iff.1 h.symm
  have hpayload := (Subtree.leafAlong_of_hash_eq hno (madeOf_left ha) (madeOf_right hb) hab.symm).2
    _ (length_turnsTo k i)
  subst hi
  rw [leafToward?_of_at? ha, leafToward?_of_at? hb, Option.map_some, Option.map_some, hpayload]

/-- Trees with the same root hash have the same height, unless there is a clash. -/
theorem height_eq_of_rootHash?_eq (hno : ¬ Clash (t.hashed ++ u.hashed)) (ht : t.leaves ≠ [])
    (h : t.rootHash? = u.rootHash?) : t.height = u.height := by
  obtain ⟨d, hd⟩ := exists_rootHash? ht
  obtain ⟨r, hr, hrd⟩ := Option.map_eq_some_iff.1 hd
  rw [hd] at h
  obtain ⟨r', hr', hrd'⟩ := Option.map_eq_some_iff.1 h.symm
  have heq := (Subtree.leafAlong_of_hash_eq hno (madeOf_left (at?_of_root? hr))
    (madeOf_right (at?_of_root? hr')) (hrd.trans hrd'.symm)).1
  have hpos := height_pos_of_root? hr
  have hpos' := height_pos_of_root? hr'
  omega

/-! ### Sizes -/

/-- A row has no more subtrees than there are ways down to it. -/
theorem width_le_two_pow {d k : Nat} (hd : d + (k + 1) = t.height) : t.width k ≤ 2 ^ d := by
  induction d generalizing k with
  | zero =>
    obtain rfl : k = t.height - 1 := by omega
    exact Nat.le_of_eq (width_last (by omega))
  | succ d ih =>
    have habove : t.width (k + 1) ≤ 2 ^ d := ih (by omega)
    rw [width_succ (by omega)] at habove
    rw [Nat.pow_succ]
    omega

theorem leafCount_le (ht : t.leaves ≠ []) : t.leafCount ≤ 2 ^ (t.height - 1) := by
  have hpos := height_pos ht
  rw [← width_zero]
  exact width_le_two_pow (by omega)

/-! ### Roots -/

/-- Two trees have the same height, and the numbers with one digit for each row above the leaves
lead to the same payloads in both. -/
def ReadsAs (t u : Tree) : Prop :=
  t.height = u.height ∧ ∀ i < 2 ^ (t.height - 1),
    (t.leafToward? i).map Leaf.payload = (u.leafToward? i).map Leaf.payload

/-- Trees that read the same have the same root hash. -/
theorem ReadsAs.rootHash?_eq (h : t.ReadsAs u) (ht : t.leaves ≠ []) (hu : u.leaves ≠ []) :
    t.rootHash? = u.rootHash? := by
  obtain ⟨hheight, hread⟩ := h
  have hpos := height_pos ht
  have hpos' := height_pos hu
  rw [rootHash?_eq_hashAt? hpos, rootHash?_eq_hashAt? hpos', ← hheight]
  refine hashAt?_eq_of_leafToward? ?_ ?_ fun i hi => hread i ?_
  · rw [width_last hpos]
    exact Nat.one_pos
  · rw [hheight, width_last hpos']
    exact Nat.one_pos
  · -- no digit stands before the last ones
    exact Nat.lt_of_div_eq_zero (Nat.two_pow_pos _) hi

/-- Trees with the same root hash read the same, unless there is a clash. -/
theorem readsAs_of_rootHash?_eq (hno : ¬ Clash (t.hashed ++ u.hashed)) (ht : t.leaves ≠ [])
    (hu : u.leaves ≠ []) (h : t.rootHash? = u.rootHash?) : t.ReadsAs u := by
  have hheight := height_eq_of_rootHash?_eq hno ht h
  have hpos := height_pos ht
  refine ⟨hheight, fun i hi => ?_⟩
  rw [rootHash?_eq_hashAt? hpos, rootHash?_eq_hashAt? (height_pos hu), ← hheight] at h
  refine leafToward?_of_hashAt?_eq hno ?_ h (Nat.div_eq_of_lt hi)
  rw [width_last hpos]
  exact Nat.one_pos

/-- **Trees that hold as many leaves** and have the same root hash hold the same payloads, unless
there is a clash. -/
theorem payloads_eq_of_rootHash?_eq (hno : ¬ Clash (t.hashed ++ u.hashed)) (ht : t.leaves ≠ [])
    (hu : u.leaves ≠ []) (h : t.rootHash? = u.rootHash?) (hcount : t.leafCount = u.leafCount) :
    t.leaves.map Leaf.payload = u.leaves.map Leaf.payload := by
  obtain ⟨-, hread⟩ := readsAs_of_rootHash?_eq hno ht hu h
  refine List.ext_getElem? fun q => ?_
  rw [List.getElem?_map, List.getElem?_map]
  by_cases hq : q < t.leafCount
  · -- a number below the number of leaves leads to the leaf at that position
    have hlt : q < 2 ^ (t.height - 1) := Nat.lt_of_lt_of_le hq (leafCount_le ht)
    have hpayload := hread q hlt
    rwa [leafToward?_eq_leaf? hq, leafToward?_eq_leaf? (hcount ▸ hq)] at hpayload
  · have hq' : ¬ q < u.leafCount := fun h => hq (hcount ▸ h)
    rw [List.getElem?_eq_none (Nat.not_lt.1 hq), List.getElem?_eq_none (Nat.not_lt.1 hq')]

/-- **What a root hash commits to.** Two trees have the same root hash iff they have the same height
and lead to the same payloads; that the same root hash makes them read the same holds unless two
different byte strings hashed for them have one digest. Then trees of one size hold the same
payloads. -/
theorem rootHash?_eq_iff_readsAs (ht : t.leaves ≠ []) (hu : u.leaves ≠ []) :
    (t.ReadsAs u → t.rootHash? = u.rootHash?) ∧
      (Clash (t.hashed ++ u.hashed) ∨
        ((t.rootHash? = u.rootHash? → t.ReadsAs u) ∧
          (t.rootHash? = u.rootHash? → t.leafCount = u.leafCount →
            t.leaves.map Leaf.payload = u.leaves.map Leaf.payload))) := by
  refine ⟨fun h => h.rootHash?_eq ht hu, ?_⟩
  by_cases hclash : Clash (t.hashed ++ u.hashed)
  · exact .inl hclash
  · exact .inr ⟨readsAs_of_rootHash?_eq hclash ht hu, payloads_eq_of_rootHash?_eq hclash ht hu⟩

/-- A tree of three leaves, and one of four whose last leaf is the copy that the first one makes. -/
theorem rootHash?_eq_iff_readsAs_copy :
    let t := Tree.build [("a", [1]), ("b", [2]), ("c", [3])]
    let u := Tree.build [("a", [1]), ("b", [2]), ("c", [3]), ("d", [3])]
    t.leaves ≠ [] ∧ u.leaves ≠ [] ∧ t.rootHash? = u.rootHash? ∧
      (Clash (t.hashed ++ u.hashed) ∨ t.ReadsAs u) := by
  intro t u
  have ht : t.leaves ≠ [] := List.cons_ne_nil _ _
  have hu : u.leaves ≠ [] := List.cons_ne_nil _ _
  have hroot : t.rootHash? = u.rootHash? := by
    simp [t, u, Tree.rootHash?, Tree.root?, Tree.build, Tree.ofLeaves, rowsOver, rowsFrom, leafRow,
      rowAbove, pairUp, Leaf.of]
  exact ⟨ht, hu, hroot, (rootHash?_eq_iff_readsAs ht hu).2.imp id fun h => h.1 hroot⟩

end Tree

end BlockLedger
