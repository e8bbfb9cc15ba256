import BlockLedger.Proofs.Json.Written

/-!
# Reading arrays that have been written

An array is read element by element, and whether there is another one is told by the next character
alone. This works because no value begins with the bracket that ends an array
(`Value.exists_write_eq`). So an array that has been written is read back if each of its elements is
taken by the reader of elements (`Reader.takes_array`), in either layout.
-/

namespace BlockLedger.Json

variable {α : Type}

/-- **No value begins with a blank or with the bracket that ends an array.** -/
theorem Value.exists_write_eq (v : Value) (layout : Layout) (depth : Nat) :
    ∃ c cs, v.write layout depth = c :: cs ∧ isBlank c = false ∧ c ≠ ']' := by
  match v with
  | .null | .bool true | .bool false =>
    rw [Value.write]
    exact ⟨_, _, rfl, rfl, by decide⟩
  | .text s =>
    rw [Value.write]
    exact ⟨_, _, rfl, rfl, by decide⟩
  | .integer (.ofNat n) =>
    -- the first digit
    rw [Value.write, Reader.toList_toString_ofNat]
    obtain ⟨d, ds, hds⟩ := List.exists_cons_of_ne_nil (Nat.toDigits_ne_nil (n := n) (b := 10))
    have hdigit : isDigit d = true := Reader.isDigit_of_mem_toDigits (hds ▸ List.mem_cons_self)
    refine ⟨d, ds, hds, Reader.isBlank_of_isDigit hdigit, ?_⟩
    rintro rfl
    cases hdigit
  | .integer (.negSucc n) =>
    rw [Value.write, Int.toString_eq_repr, Int.repr, String.toList_append]
    exact ⟨_, _, rfl, rfl, by decide⟩
  | .array [] | .array (_ :: _) =>
    rw [Value.write]
    exact ⟨_, _, rfl, rfl, by decide⟩
  | .object [] | .object (_ :: _) =>
    rw [Value.write]
    exact ⟨_, _, rfl, rfl, by decide⟩

theorem length_le_writeItems (layout : Layout) (depth : Nat) (vs : List Value) :
    vs.length ≤ (writeItems layout depth vs).length := by
  induction vs with
  | nil => exact Nat.zero_le _
  | cons v vs ih =>
    rw [writeItems]
    simp only [List.length_cons, List.length_append]
    omega

namespace Reader

/-- What may stand behind an element of an array. -/
theorem ends_writeItems (layout : Layout) (depth : Nat) (vs : List Value) {blanks : List Char}
    (hblanks : Blanks blanks) (rest : List Char) :
    Ends (writeItems layout depth vs ++ (blanks ++ ']' :: rest)) := by
  cases vs with
  | nil => exact ends_of_blanks hblanks (ends_cons (by decide) rest)
  | cons v vs => exact ends_cons (by decide) _

/-! ### Whether another element follows -/

/-- Behind the bracket there is an element if anything but a bracket comes next. -/
theorem nextElement_first {blanks : List Char} (hblanks : Blanks blanks) {c : Char}
    (hblank : isBlank c = false) (hc : c ≠ ']') (rest : List Char) :
    nextElement true (blanks ++ c :: rest) = .ok (true, c :: rest) := by
  rw [nextElement, bind_of_ok (peek_append hblanks hblank rest)]
  simp only [hc, if_false, if_true]
  rfl

/-- Behind an element there is another one if a comma and anything but a bracket come next. -/
theorem nextElement_comma {blanks : List Char} (hblanks : Blanks blanks) {c : Char}
    (hblank : isBlank c = false) (hc : c ≠ ']') (rest : List Char) :
    nextElement false (',' :: (blanks ++ c :: rest)) = .ok (true, c :: rest) := by
  have hadvance : advance (',' :: (blanks ++ c :: rest)) = .ok ((), blanks ++ c :: rest) := rfl
  rw [nextElement, bind_of_ok (peek_cons rfl _)]
  refine (bind_of_ok hadvance).trans ?_
  -- the character behind the comma is looked at, but not taken
  refine (bind_of_ok (peek_append hblanks hblank rest)).trans ?_
  generalize hnext : some c = next
  split
  · cases hnext
  · exact absurd (Option.some.inj hnext) hc
  · rfl

/-- There is no other element if a bracket comes next. -/
theorem nextElement_bracket (first : Bool) {blanks : List Char} (hblanks : Blanks blanks)
    (rest : List Char) :
    nextElement first (blanks ++ ']' :: rest) = .ok (false, ']' :: rest) := by
  rw [nextElement, bind_of_ok (peek_append hblanks rfl rest)]
  rfl

theorem endOfArray_bracket (rest : List Char) : endOfArray (']' :: rest) = .ok ((), rest) := by
  rw [endOfArray, bind_of_ok (peek_cons rfl rest)]
  rfl

/-! ### Elements -/

variable {item : Reader α}

/-- The end of an array. -/
theorem elements_of_bracket {n : Nat} {first : Bool} {blanks : List Char} (hblanks : Blanks blanks)
    (read : List α) (rest : List Char) :
    elements item (n + 1) first read (blanks ++ ']' :: rest) = .ok (read.reverse, rest) := by
  rw [elements, bind_of_ok (nextElement_bracket first hblanks rest)]
  exact bind_of_ok (endOfArray_bracket rest)

/-- One element, where its first character comes next. -/
theorem elements_of_next {n : Nat} {first : Bool} {x : α} {read : List α} {cs vs rest : List Char}
    (hnext : nextElement first cs = .ok (true, vs ++ rest)) (hitem : item.Takes vs x)
    (hrest : Ends rest) :
    elements item (n + 1) first read cs = elements item n false (x :: read) rest := by
  rw [elements, bind_of_ok hnext]
  exact bind_of_ok (hitem [] rest blanks_nil hrest)

variable {f : α → Value} {layout : Layout} {depth : Nat}

/-- The elements behind the first one, and the end of the array. The induction is on the elements; the
fuel is a character for each of them, and one for the bracket. -/
theorem elements_written {xs : List α}
    (hitem : ∀ x ∈ xs, item.Takes ((f x).write layout depth) x) {blanks : List Char}
    (hblanks : Blanks blanks) (read : List α) (rest : List Char) {n : Nat} (hn : xs.length < n) :
    elements item n false read (writeItems layout depth (xs.map f) ++ (blanks ++ ']' :: rest)) =
      .ok (read.reverse ++ xs, rest) := by
  obtain ⟨n, rfl⟩ := Nat.exists_eq_add_of_lt hn
  induction xs generalizing read with
  | nil =>
    rw [List.map_nil, writeItems, List.nil_append, List.append_nil]
    exact elements_of_bracket hblanks read rest
  | cons x xs ih =>
    obtain ⟨hx, hxs⟩ := List.forall_mem_cons.1 hitem
    obtain ⟨c, cs, hcs, hblank, hc⟩ := (f x).exists_write_eq layout depth
    let behind := writeItems layout depth (xs.map f) ++ (blanks ++ ']' :: rest)
    have hnext : nextElement false
        (writeItems layout depth ((x :: xs).map f) ++ (blanks ++ ']' :: rest)) =
        .ok (true, (f x).write layout depth ++ behind) := by
      have htext : writeItems layout depth ((x :: xs).map f) ++ (blanks ++ ']' :: rest) =
          ',' :: (layout.break depth ++ c :: (cs ++ behind)) := by
        rw [List.map_cons, writeItems, hcs]
        simp only [List.append_assoc, List.cons_append, behind]
      rw [htext, nextElement_comma (blanks_break layout depth) hblank hc, hcs, List.cons_append]
    have hfuel : (x :: xs).length + n + 1 = (xs.length + n + 1) + 1 := by
      rw [List.length_cons]
      omega
    calc elements item ((x :: xs).length + n + 1) false read
          (writeItems layout depth ((x :: xs).map f) ++ (blanks ++ ']' :: rest))
        = elements item (xs.length + n + 1) false (x :: read) behind := by
          rw [hfuel]
          exact elements_of_next hnext hx (ends_writeItems layout depth _ hblanks rest)
      _ = .ok ((x :: read).reverse ++ xs, rest) := ih hxs (x :: read) (by omega)
      _ = .ok (read.reverse ++ x :: xs, rest) := by
          rw [List.reverse_cons, List.append_assoc, List.singleton_append]

/-- **An array that has been written** is read back, if each of its elements is. -/
theorem takes_array {xs : List α}
    (hitem : ∀ x ∈ xs, item.Takes ((f x).write layout (depth + 1)) x) :
    (array item).Takes ((Value.array (xs.map f)).write layout depth) xs := by
  intro blanks rest hblanks hrest
  -- from behind the bracket, with a step for each character
  have hopened : ∀ cs, array item (blanks ++ '[' :: cs) =
      elements item (cs.length + 1) true [] cs := by
    intro cs
    rw [array, bind_of_ok (peek_append hblanks rfl cs)]
    rfl
  cases xs with
  | nil =>
    rw [List.map_nil, Value.write]
    exact (hopened (']' :: rest)).trans (elements_of_bracket blanks_nil [] rest)
  | cons x xs =>
    obtain ⟨hx, hxs⟩ := List.forall_mem_cons.1 hitem
    obtain ⟨c, cs, hcs, hblank, hc⟩ := (f x).exists_write_eq layout (depth + 1)
    let behind := writeItems layout (depth + 1) (xs.map f) ++ (layout.break depth ++ ']' :: rest)
    have htext : (Value.array ((x :: xs).map f)).write layout depth ++ rest =
        '[' :: (layout.break (depth + 1) ++ c :: (cs ++ behind)) := by
      rw [List.map_cons, Value.write, hcs]
      simp only [List.append_assoc, List.cons_append, List.nil_append, behind]
    have hnext : nextElement true (layout.break (depth + 1) ++ c :: (cs ++ behind)) =
        .ok (true, (f x).write layout (depth + 1) ++ behind) := by
      rw [nextElement_first (blanks_break layout (depth + 1)) hblank hc, hcs, List.cons_append]
    have hbehind := ends_writeItems layout (depth + 1) (xs.map f) (blanks_break layout depth) rest
    rw [htext, hopened, elements_of_next hnext hx hbehind]
    refine elements_written hxs (blanks_break layout depth) [x] rest ?_
    -- there are no more elements than characters behind the first one
    have hlength := length_le_writeItems layout (depth + 1) (xs.map f)
    rw [List.length_map] at hlength
    simp only [List.length_append, List.length_cons, behind]
    omega

end Reader

end BlockLedger.Json
