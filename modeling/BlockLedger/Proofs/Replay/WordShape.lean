import BlockLedger.InclusionProof.Words
import BlockLedger.Proofs.Replay.Shape

/-!
# The shape of a proof, checked on words

A computation on words *follows* one on natural numbers if it ends in the same way, with the same
result or the same defect (`Words.Follows`). A computation that follows another one never stops for
an overflow or a missing place, since the other one cannot stop for these.

The check of the shape follows the one on natural numbers, whatever the proof holds
(`Words.checkShape_follows`). The widths halve at every step, and so the number of a row and the
logarithm of the width below it make up at most 65 as long as the check goes on. This is the
invariant of the loop (`Words.checkRows_follows`): it bounds the counter of the rows, although a
proof may have more rows than words can count.
-/

namespace BlockLedger

namespace Words

/-! ### Arithmetic -/

/-- All numbers of a word fit 64 bits. -/
theorem toNat_lt_unsignedLimit (w : UInt64) : w.toNat < unsignedLimit := w.toNat_lt

theorem exists_ofNat? {n : Nat} (h : n < unsignedLimit) : ∃ w, ofNat? n = .ok w ∧ w.toNat = n :=
  ⟨.ofNat n, if_pos h, UInt64.toNat_ofNat_of_lt' h⟩

/-- The next word, if there is one. -/
theorem exists_next {a : UInt64} (h : a.toNat + 1 < unsignedLimit) :
    ∃ c, add a 1 = .ok c ∧ c.toNat = a.toNat + 1 :=
  exists_ofNat? h

/-- Twice a word, if it fits. -/
theorem exists_double {a : UInt64} (h : 2 * a.toNat < unsignedLimit) :
    ∃ c, mul a 2 = .ok c ∧ c.toNat = 2 * a.toNat := by
  have hmul : a.toNat * (2 : UInt64).toNat = 2 * a.toNat := Nat.mul_comm _ _
  rw [mul, hmul]
  exact exists_ofNat? h

/-- The word before one that is not zero. -/
theorem exists_before {a : UInt64} {n : Nat} (h : a.toNat = n + 1) :
    ∃ c, sub a 1 = .ok c ∧ c.toNat = n := by
  have hle : 1 ≤ a := UInt64.le_iff_toNat_le.2 (h ▸ Nat.le_add_left 1 n)
  refine ⟨a - 1, if_pos hle, ?_⟩
  rw [UInt64.toNat_sub_of_le a 1 hle, h]
  exact Nat.add_sub_cancel n 1

/-- **Rounding up never overflows**, not even for the greatest odd number. -/
theorem exists_halfUp (w : UInt64) : ∃ c, halfUp w = .ok c ∧ c.toNat = (w.toNat + 1) / 2 := by
  have hlt : w.toNat < 2 ^ 64 := w.toNat_lt
  have hdiv : (w / 2).toNat = w.toNat / 2 := UInt64.toNat_div w 2
  have heven : w % 2 = 0 ↔ w.toNat % 2 = 0 := by
    rw [← UInt64.toNat_inj, UInt64.toNat_mod]
    rfl
  rw [halfUp]
  split
  next hrest =>
    rw [heven] at hrest
    refine ⟨w / 2, rfl, ?_⟩
    omega
  next hrest =>
    rw [heven] at hrest
    -- the quotient is less than the greatest word, so one more fits
    have hfits : (w / 2).toNat + 1 < unsignedLimit := by
      rw [hdiv]
      change w.toNat / 2 + 1 < 2 ^ 64
      omega
    obtain ⟨c, hc, hnat⟩ := exists_next hfits
    refine ⟨c, hc, ?_⟩
    omega

/-- The place behind the first elements of a list holds the next one. -/
theorem fetch_append {α : Type} {done rest : List α} {a : α} {place : UInt64}
    (h : place.toNat = done.length) : fetch (done ++ a :: rest) place = .ok a := by
  rw [fetch, h, List.getElem?_append_right (Nat.le_refl _), Nat.sub_self, List.getElem?_cons_zero]

theorem ok_bind {α β : Type} (a : α) (f : α → Except Stop β) :
    ((Except.ok a : Except Stop α) >>= f) = f a := rfl

/-- The last row is found if the rows can be counted. -/
theorem lastRow_eq {done : List Level} {last : Level} (h : done.length + 1 < unsignedLimit) :
    lastRow (done ++ [last]) = .ok last := by
  have hlength : (done ++ [last]).length = done.length + 1 := List.length_append
  obtain ⟨rows, hrows, hrowsNat⟩ := exists_ofNat? (hlength ▸ h)
  obtain ⟨top, htop, htopNat⟩ := exists_before (hrowsNat.trans hlength)
  rw [lastRow, count, hrows, ok_bind, htop, ok_bind, fetch_append htopNat]

/-! ### Following -/

/-- **A computation on words follows one on natural numbers**: it has the same result, read as
natural numbers, or refuses the proof for the same defect. -/
def Follows {α β : Type} (read : α → β) (x : Except Stop α) (y : Except Defect β) : Prop :=
  x.map read = y.mapError fun d => .refused (.malformed d)

section Follows

variable {α β γ δ : Type} {read : α → β} {read' : γ → δ}

theorem Follows.ok (a : α) : Follows read (.ok a) (.ok (read a)) := rfl

theorem Follows.refuse (d : Defect) : Follows read (refuse d) (.error d) := rfl

/-- Both computations succeed or both refuse. -/
theorem Follows.cases {x : Except Stop α} {y : Except Defect β} (h : Follows read x y) :
    (∃ a, x = .ok a ∧ y = .ok (read a)) ∨ ∃ d, x = Words.refuse d ∧ y = .error d := by
  cases x with
  | error stop =>
    cases y with
    | error d =>
      cases h
      exact .inr ⟨d, rfl, rfl⟩
    | ok b => cases h
  | ok a =>
    cases y with
    | error d => cases h
    | ok b =>
      cases h
      exact .inl ⟨a, rfl, rfl⟩

/-- **Steps that follow one after the other** follow the two steps; the second one may use that the
first one has succeeded. -/
theorem Follows.bind {x : Except Stop α} {y : Except Defect β} {f : α → Except Stop γ}
    {g : β → Except Defect δ} (h : Follows read x y)
    (hnext : ∀ a, y = .ok (read a) → Follows read' (f a) (g (read a))) :
    Follows read' (x >>= f) (y >>= g) := by
  rcases h.cases with ⟨a, rfl, rfl⟩ | ⟨d, rfl, rfl⟩
  · exact hnext a rfl
  · exact Follows.refuse d

/-- Two computations follow two others if which one is taken is decided in the same way. -/
theorem Follows.ite {p q : Prop} [Decidable p] [Decidable q] {x x' : Except Stop α}
    {y y' : Except Defect β} (hpq : p ↔ q) (h : q → Follows read x y)
    (h' : ¬ q → Follows read x' y') :
    Follows read (if p then x else x') (if q then y else y') := by
  by_cases hq : q
  · rw [if_pos hq, if_pos (hpq.2 hq)]
    exact h hq
  · rw [if_neg hq, if_neg (mt hpq.1 hq)]
    exact h' hq

/-- A check and a step after it, of which the second one may use that the check has passed. -/
theorem Follows.andThen {x : Except Stop Unit} {y : Except Defect Unit} {f : Except Stop γ}
    {g : Except Defect δ} (h : Follows id x y) (hnext : y = .ok () → Follows read' f g) :
    Follows read' (x >>= fun _ => f) (y >>= fun _ => g) :=
  h.bind fun _ hy => hnext hy

theorem Follows.mapM {f : α → Except Stop γ} {g : β → Except Defect δ} {as : List α}
    (h : ∀ a ∈ as, Follows read' (f a) (g (read a))) :
    Follows (List.map read') (as.mapM f) ((as.map read).mapM g) := by
  induction as with
  | nil => exact Follows.ok []
  | cons a as ih =>
    rw [List.map_cons, List.mapM_cons, List.mapM_cons]
    refine (h a List.mem_cons_self).bind fun c _ => ?_
    refine (ih fun b hb => h b (List.mem_cons_of_mem a hb)).bind fun cs _ => ?_
    exact Follows.ok (c :: cs)

end Follows

/-! ### One row -/

theorem checkEntries_follows (level width : UInt64) (previous : Option UInt64) (es : List Entry) :
    Follows id (checkEntries level width previous es)
      (BlockLedger.checkEntries level.toNat width.toNat (previous.map UInt64.toNat)
        (es.map Entry.plain)) := by
  have hzero : level = 0 ↔ level.toNat = 0 := UInt64.toNat_inj.symm
  induction es generalizing previous with
  | nil => exact Follows.ok ()
  | cons e es ih =>
    obtain ⟨position, slot⟩ := e
    have hrange : width ≤ position ↔ width.toNat ≤ position.toNat := UInt64.le_iff_toNat_le
    have hprevious : previous.any (position ≤ ·) = true ↔
        (previous.map UInt64.toNat).any (position.toNat ≤ ·) = true := by
      cases previous with
      | none => exact Iff.rfl
      | some q =>
        rw [Option.any_some, Option.map_some, Option.any_some, decide_eq_true_eq,
          decide_eq_true_eq, UInt64.le_iff_toNat_le]
    rw [List.map_cons, checkEntries, BlockLedger.checkEntries]
    -- in the order of the checks: range, order, kind
    refine Follows.ite hrange (fun _ => Follows.refuse _) fun _ => ?_
    refine Follows.ite hprevious (fun _ => Follows.refuse _) fun _ => ?_
    cases slot with
    | supplied d => exact ih (some position)
    | derived => exact Follows.ite hzero (fun _ => Follows.refuse _) fun _ => ih (some position)
    | leaf id => exact Follows.ite hzero (fun _ => ih (some position)) fun _ => Follows.refuse _

/-- The width of a row is checked against that of the row that was taken before it. -/
theorem checkWidth_follows {done rest : List Level} {below current : Level} {level : UInt64}
    (hlevel : level.toNat = done.length + 1) :
    Follows id (checkWidth (done ++ below :: rest) level current)
      (if below.width.toNat = 1 then .error (.extraLevel level.toNat)
        else if current.width.toNat = (below.width.toNat + 1) / 2 then .ok ()
        else .error
          (.levelWidth level.toNat ((below.width.toNat + 1) / 2) current.width.toNat)) := by
  have hpos : 0 < level := UInt64.lt_iff_toNat_lt.2 (hlevel ▸ Nat.succ_pos _)
  obtain ⟨before, hbefore, hbeforeNat⟩ := exists_before hlevel
  obtain ⟨expected, hexpected, hexpectedNat⟩ := exists_halfUp below.width
  rw [checkWidth, if_pos hpos, hbefore, ok_bind, fetch_append hbeforeNat, ok_bind, hexpected,
    ok_bind, ← hexpectedNat]
  refine Follows.ite UInt64.toNat_inj.symm (fun _ => Follows.refuse _) fun _ => ?_
  exact Follows.ite UInt64.toNat_inj.symm (fun _ => Follows.ok ()) fun _ => Follows.refuse _

/-! ### All rows -/

theorem checkTop_follows {done : List Level} {last : Level} (h : done.length + 1 < unsignedLimit)
    (level : Nat) :
    Follows id (checkTop (done ++ [last])) (checkLevels level last.width.toNat []) := by
  rw [checkTop, lastRow_eq h, ok_bind, checkLevels]
  exact Follows.ite UInt64.toNat_inj.symm (fun _ => Follows.ok ()) fun _ => Follows.refuse _

/-- The check of the rows, taken apart into its steps. -/
theorem checkLevels_cons (level below : Nat) (l : BlockLedger.Level)
    (ls : List BlockLedger.Level) :
    checkLevels level below (l :: ls) =
      ((if below = 1 then .error (.extraLevel level)
        else if l.width = (below + 1) / 2 then .ok ()
        else .error (.levelWidth level ((below + 1) / 2) l.width)) >>= fun _ =>
      BlockLedger.checkEntries level l.width none l.entries >>= fun _ =>
      checkLevels (level + 1) l.width ls) := by
  rw [checkLevels]
  by_cases hroot : below = 1
  · rw [if_pos hroot, if_pos hroot]
    rfl
  · rw [if_neg hroot, if_neg hroot]
    by_cases hwidth : l.width = (below + 1) / 2
    · rw [if_neg (not_not.2 hwidth), if_pos hwidth]
      rfl
    · rw [if_pos hwidth, if_neg hwidth]
      rfl

theorem lt_unsignedLimit_of_le {n k : Nat} (h : n + k ≤ 65) : n + 1 < unsignedLimit := by
  have hlimit : 66 < unsignedLimit := by decide
  omega

/-- **The loop over the rows**: the number of the row to be taken and the logarithm of the width
below it make up at most 65. -/
theorem checkRows_follows {done rest : List Level} {below : Level} {level : UInt64}
    (hlevel : level.toNat = done.length + 1) (hpos : 0 < below.width.toNat)
    (hbound : level.toNat + Nat.clog 2 below.width.toNat ≤ 65) :
    Follows id (checkRows (done ++ below :: rest) level rest)
      (checkLevels level.toNat below.width.toNat (rest.map Level.plain)) := by
  have hsmall : level.toNat + 1 < unsignedLimit := lt_unsignedLimit_of_le hbound
  induction rest generalizing done below level with
  | nil => exact checkTop_follows (by omega) level.toNat
  | cons current rest ih =>
    obtain ⟨next, hnext, hnextNat⟩ := exists_next hsmall
    rw [List.map_cons, checkRows, hnext, ok_bind, checkLevels_cons]
    refine (checkWidth_follows hlevel).andThen fun hwidth => ?_
    refine (checkEntries_follows level current.width none current.entries).andThen fun _ => ?_
    -- the check of the width has passed, so the width has halved
    have hhalves : below.width.toNat ≠ 1 ∧ current.width.toNat = (below.width.toNat + 1) / 2 := by
      split at hwidth
      · cases hwidth
      split at hwidth
      next hne heq => exact ⟨hne, heq⟩
      · cases hwidth
    obtain ⟨hne, hhalf⟩ := hhalves
    have hclog : Nat.clog 2 below.width.toNat = Nat.clog 2 current.width.toNat + 1 := by
      rw [hhalf]
      exact Nat.clog_of_two_le Nat.one_lt_two (by omega)
    have hrows : done ++ below :: current :: rest = (done ++ [below]) ++ current :: rest :=
      List.append_cons done below _
    have hdone : next.toNat = (done ++ [below]).length + 1 := by
      rw [hnextNat, hlevel, List.length_append, List.length_singleton]
    have hsum : next.toNat + Nat.clog 2 current.width.toNat ≤ 65 := by omega
    rw [hrows, ← hnextNat]
    exact ih hdone (by omega) hsum (lt_unsignedLimit_of_le hsum)

/-- **The check of the shape on words** ends as that on natural numbers does, for every proof. -/
theorem checkShape_follows (levels : List Level) :
    Follows id (checkShape levels) (BlockLedger.checkShape (levels.map Level.plain)) := by
  cases levels with
  | nil => exact Follows.refuse _
  | cons leafRow rest =>
    rw [checkShape, List.map_cons, BlockLedger.checkShape]
    refine Follows.ite UInt64.toNat_inj.symm (fun _ => Follows.refuse _) fun hne => ?_
    have hclog : Nat.clog 2 leafRow.width.toNat ≤ 64 :=
      Nat.clog_le_of_le_pow (Nat.le_of_lt leafRow.width.toNat_lt)
    have hpos : 0 < leafRow.width.toNat := Nat.pos_of_ne_zero hne
    obtain ⟨next, hnext, hnextNat⟩ := exists_next (a := 0) (by decide)
    have hfirst : next.toNat = 1 := hnextNat
    -- there is no row below the leaf row, so its width is not compared
    have hwidth : checkWidth (leafRow :: rest) 0 leafRow = .ok () := rfl
    rw [checkRows, hnext, ok_bind, hwidth, ok_bind]
    refine (checkEntries_follows 0 leafRow.width none leafRow.entries).andThen fun _ => ?_
    have hrest : Follows id (checkRows ([] ++ leafRow :: rest) next rest)
        (checkLevels next.toNat leafRow.width.toNat (rest.map Level.plain)) :=
      checkRows_follows hfirst hpos (by omega)
    rwa [hfirst] at hrest

end Words

end BlockLedger
