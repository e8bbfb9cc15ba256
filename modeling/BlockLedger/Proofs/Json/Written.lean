import BlockLedger.Json.Reader
import BlockLedger.Json.Value
import Mathlib.Data.List.Basic
import Mathlib.Tactic.SplitIfs

/-!
# Reading what has been written

A reader takes what the printer has written from the front of a text and leaves the rest
(`Reader.Takes`). Only a number could go on in the rest, so the rest must not start with a digit, a
point or the letter of an exponent (`Ends`); behind a value that stands in a container it never
does.

* `Reader.takes_text`: strings, whatever characters they are made of;
* `Reader.takes_unsigned`, `Reader.takes_signed`: integers of 64 bits;
* `Reader.objectBody_written`: objects, if each member is taken in its turn (`Reader.TakesMembers`).
-/

namespace BlockLedger.Json

variable {α β : Type}

/-- No number goes on with this text. -/
def Ends (rest : List Char) : Prop :=
  ∀ c ∈ rest.head?, isDigit c = false ∧ c ≠ '.' ∧ c ≠ 'e' ∧ c ≠ 'E'

theorem ends_nil : Ends [] := by
  intro c hc
  cases hc

theorem ends_cons {c : Char} (h : isDigit c = false ∧ c ≠ '.' ∧ c ≠ 'e' ∧ c ≠ 'E')
    (rest : List Char) : Ends (c :: rest) := by
  intro d hd
  cases hd
  exact h

/-! ### Strings -/

/-- A digit below sixteen is read as its number. -/
theorem hexValue?_lowDigit {n : Nat} (h : n < 16) : hexValue? (lowDigit n) = some n := by
  have hall : ∀ n < 16, hexValue? (lowDigit n) = some n := by decide
  exact hall n h

/-- A character that is neither quote nor backslash nor below the blank stands for itself. -/
theorem stringBody_plain {c : Char} (hquote : c ≠ '"') (hslash : c ≠ '\\') (hlow : ¬ c.toNat < 0x20)
    (read rest : List Char) : stringBody read (c :: rest) = stringBody (c :: read) rest := by
  rw [stringBody, if_neg hlow]
  all_goals simp only [hquote, hslash, false_implies, implies_true]

/-- An escape of one letter. -/
theorem stringBody_short {c d : Char} (h : shortEscape? c = some d) (hu : c ≠ 'u')
    (read rest : List Char) :
    stringBody read ('\\' :: c :: rest) = stringBody (d :: read) rest := by
  rw [stringBody, h]
  all_goals simp only [hu, false_implies, implies_true]

/-- An escape of four digits, the first two of which are zero. -/
theorem stringBody_unit {n : Nat} (h : n < 0x20) (read rest : List Char) :
    stringBody read ('\\' :: 'u' :: '0' :: '0' :: lowDigit (n / 16) :: lowDigit (n % 16) :: rest) =
      stringBody (Char.ofNat n :: read) rest := by
  have hzero : hexValue? '0' = some 0 := rfl
  have hunit : hexUnit? '0' '0' (lowDigit (n / 16)) (lowDigit (n % 16)) = some n := by
    rw [hexUnit?, hzero, hexValue?_lowDigit (by omega), hexValue?_lowDigit (by omega)]
    simp only [Option.some.injEq]
    omega
  -- so small a number is no half of a surrogate pair
  have hhigh : isHighHalf n = false := Bool.and_eq_false_iff.2 (.inl (decide_eq_false (by omega)))
  have hlow : isLowHalf n = false := Bool.and_eq_false_iff.2 (.inl (decide_eq_false (by omega)))
  rw [stringBody, hunit]
  simp only [hlow, hhigh, Bool.false_eq_true, if_false]

/-- **What has been written for a character** is read as that character. -/
theorem stringBody_escape (c : Char) (read rest : List Char) :
    stringBody read (escape c ++ rest) = stringBody (c :: read) rest := by
  rw [escape]
  split_ifs with h₁ h₂ h₃ h₄ h₅ h₆ h₇ h₈
  · subst h₁
    exact stringBody_short rfl (by decide) _ _
  · subst h₂
    exact stringBody_short rfl (by decide) _ _
  · subst h₃
    exact stringBody_short rfl (by decide) _ _
  · subst h₄
    exact stringBody_short rfl (by decide) _ _
  · subst h₅
    exact stringBody_short rfl (by decide) _ _
  · subst h₆
    exact stringBody_short rfl (by decide) _ _
  · subst h₇
    exact stringBody_short rfl (by decide) _ _
  · have hunit := stringBody_unit h₈ read rest
    rw [Char.ofNat_toNat] at hunit
    exact hunit
  · exact stringBody_plain h₁ h₂ h₈ read rest

theorem stringBody_flatMap_escape (cs read rest : List Char) :
    stringBody read (cs.flatMap escape ++ '"' :: rest) = .ok (read.reverse ++ cs, rest) := by
  induction cs generalizing read with
  | nil => rw [List.flatMap_nil, List.nil_append, stringBody, List.append_nil]
  | cons c cs ih =>
    rw [List.flatMap_cons, List.append_assoc, stringBody_escape, ih, List.reverse_cons,
      List.append_assoc, List.singleton_append]

/-! ### Values and their readers -/

/-- There is nothing in the text but blanks. -/
def Blanks (cs : List Char) : Prop := ∀ c ∈ cs, isBlank c = true

theorem blanks_nil : Blanks [] := fun _ hc => absurd hc List.not_mem_nil

theorem blanks_break (layout : Layout) (depth : Nat) : Blanks (layout.break depth) := by
  cases layout with
  | compact => exact blanks_nil
  | indented =>
    intro c hc
    rcases List.mem_cons.1 hc with rfl | hc
    · rfl
    · rw [List.eq_of_mem_replicate hc]
      rfl

theorem skipBlanks_append {blanks : List Char} (h : Blanks blanks) {c : Char}
    (hc : isBlank c = false) (rest : List Char) :
    skipBlanks (blanks ++ c :: rest) = c :: rest := by
  rw [skipBlanks, List.dropWhile_append_of_pos h, List.dropWhile_cons, hc]
  rfl

namespace Reader

/-- **A reader takes** these characters, behind any blanks, and makes the value of them, if no
number goes on behind them. -/
def Takes (r : Reader α) (cs : List Char) (a : α) : Prop :=
  ∀ blanks rest, Blanks blanks → Ends rest → r (blanks ++ (cs ++ rest)) = .ok (a, rest)

/-- What is made of a value that has been taken. -/
theorem Takes.bind_pure {r : Reader α} {f : α → Reader β} {cs : List Char} {a : α} {b : β}
    (h : r.Takes cs a) (hf : f a = pure b) : (r >>= f).Takes cs b := by
  intro blanks rest hblanks hrest
  rw [bind_of_ok (h blanks rest hblanks hrest), hf]
  rfl

/-- Two readers one after the other, where it is known what both of them make of the text. -/
theorem bind_of_bind {γ : Type} {r : Reader α} {f : α → Reader β} {g : β → Reader γ}
    {cs rest : List Char} {b : β} (h : (r >>= f) cs = .ok (b, rest)) :
    (r >>= fun a => f a >>= g) cs = g b rest := by
  rw [bind_apply] at h
  cases hr : r cs with
  | error e =>
    rw [hr] at h
    cases h
  | ok v =>
    rw [hr] at h
    rw [bind_of_ok hr]
    exact bind_of_ok h

/-- The next character behind blanks. -/
theorem peek_append {blanks : List Char} (h : Blanks blanks) {c : Char} (hc : isBlank c = false)
    (rest : List Char) : peek (blanks ++ c :: rest) = .ok (some c, c :: rest) := by
  rw [peek, skipBlanks_append h hc]
  rfl

/-- The next character, if it is not a blank. -/
theorem peek_cons {c : Char} (hc : isBlank c = false) (rest : List Char) :
    peek (c :: rest) = .ok (some c, c :: rest) := peek_append blanks_nil hc rest

/-- The content of a string. -/
theorem body_escape (s : String) (rest : List Char) :
    body (s.toList.flatMap escape ++ '"' :: rest) = .ok (s, rest) := by
  rw [body, stringBody_flatMap_escape]
  simp only [List.reverse_nil, List.nil_append, String.ofList_toList]

/-- A string begins with its quote, and its content ends with one. -/
theorem quote_append (s : String) (rest : List Char) :
    quote s ++ rest = '"' :: (s.toList.flatMap escape ++ '"' :: rest) := by
  rw [quote, List.append_assoc]
  rfl

/-- **A string that has been written** is read back. -/
theorem takes_text (expected s : String) (layout : Layout) (depth : Nat) :
    (text expected).Takes ((Value.text s).write layout depth) s := by
  intro blanks rest hblanks hrest
  rw [Value.write, quote_append, text, bind_of_ok (peek_append hblanks rfl _)]
  exact body_escape s rest

/-- A string where nothing but a string makes sense. -/
theorem takes_key (s : String) : key.Takes (quote s) s := by
  intro blanks rest hblanks hrest
  rw [quote_append, key, bind_of_ok (peek_append hblanks rfl _)]
  exact body_escape s rest

/-! ### Numbers -/

/-- A character that `isDigit` accepts in the library is one here. -/
theorem isDigit_of_char {c : Char} (h : c.isDigit = true) : isDigit c = true := by
  rw [Char.isDigit, Bool.and_eq_true] at h
  rw [isDigit, Bool.and_eq_true, decide_eq_true_iff, decide_eq_true_iff]
  exact ⟨of_decide_eq_true h.1, of_decide_eq_true h.2⟩

theorem isDigit_of_mem_toDigits {n : Nat} {c : Char} (h : c ∈ Nat.toDigits 10 n) :
    isDigit c = true :=
  isDigit_of_char (Nat.isDigit_of_mem_toDigits (by decide) (by decide) h)

/-- All digits in front are taken. -/
theorem digits_append {ds rest : List Char} (hds : ∀ d ∈ ds, isDigit d = true) (hrest : Ends rest) :
    digits (ds ++ rest) = (ds, rest) := by
  have htake : rest.takeWhile isDigit = [] := by
    cases rest with
    | nil => rfl
    | cons c rest => rw [List.takeWhile_cons, (hrest c rfl).1]; rfl
  have hdrop : rest.dropWhile isDigit = rest := by
    cases rest with
    | nil => rfl
    | cons c rest => rw [List.dropWhile_cons, (hrest c rfl).1]; rfl
  rw [digits, List.takeWhile_append_of_pos hds, List.dropWhile_append_of_pos hds, htake, hdrop,
    List.append_nil]

/-- The number that digits write never falls when digits are appended. -/
theorem le_ofDigitChars (ds : List Char) (n : Nat) : n ≤ Nat.ofDigitChars 10 ds n := by
  induction ds generalizing n with
  | nil => exact Nat.le_refl n
  | cons d ds ih => exact Nat.le_trans (by omega) (ih (10 * n + (d.toNat - 48)))

/-- Digits are gathered as long as their number fits 64 bits. -/
theorem gather_eq {ds : List Char} {n : Nat} (h : Nat.ofDigitChars 10 ds n < unsignedLimit)
    (taken : Nat) : gather n taken ds = (Nat.ofDigitChars 10 ds n, taken + ds.length) := by
  induction ds generalizing n taken with
  | nil => rfl
  | cons d ds ih =>
    have hstep : Nat.ofDigitChars 10 (d :: ds) n =
        Nat.ofDigitChars 10 ds (10 * n + (d.toNat - 48)) := rfl
    rw [hstep] at h ⊢
    -- the number up to this digit is no larger than the whole one
    have hlt : 10 * n + (d.toNat - 48) < unsignedLimit :=
      Nat.lt_of_le_of_lt (le_ofDigitChars ds _) h
    rw [gather, if_pos hlt, ih h, List.length_cons]
    congr 1
    omega

/-- The digits of a number start with zero only if it is zero. -/
theorem toDigits_ne_zero_cons (n : Nat) (d : Char) (ds : List Char) :
    Nat.toDigits 10 n ≠ '0' :: d :: ds := by
  induction n using Nat.strongRecOn generalizing d ds with
  | ind n ih =>
    intro h
    by_cases hn : n < 10
    · rw [Nat.toDigits_of_lt_base hn] at h
      exact absurd (congrArg List.length h) (by simp)
    · rw [Nat.toDigits_of_base_le (by decide) (by omega)] at h
      -- the digits before the last one are those of a smaller number, and they start with zero, too
      cases hds : Nat.toDigits 10 (n / 10) with
      | nil => exact Nat.toDigits_ne_nil hds
      | cons c cs =>
        rw [hds, List.cons_append, List.cons.injEq] at h
        obtain ⟨rfl, h⟩ := h
        cases cs with
        | nil =>
          have hzero : n / 10 = 0 := by
            have hvalue := Nat.ofDigitChars_toDigits (b := 10) (n := n / 10) (by decide) (by decide)
            rw [hds] at hvalue
            exact hvalue.symm
          omega
        | cons c' cs => exact ih (n / 10) (by omega) c' cs hds

theorem numberTail_digits {n : Nat} (hn : n < unsignedLimit) (minus : Bool) {rest : List Char}
    (hrest : Ends rest) :
    numberTail minus (Nat.toDigits 10 n) rest = .ok (integerOf minus n, rest) := by
  have hvalue : Nat.ofDigitChars 10 (Nat.toDigits 10 n) 0 = n :=
    Nat.ofDigitChars_toDigits (by decide) (by decide)
  have hgather : gather 0 0 (Nat.toDigits 10 n) = (n, (Nat.toDigits 10 n).length) := by
    rw [gather_eq (by rw [hvalue]; exact hn), hvalue, Nat.zero_add]
  rw [numberTail, hgather]
  simp only
  split
  · exact absurd rfl (hrest _ rfl).2.1
  · exact absurd rfl (hrest _ rfl).2.2.1
  · exact absurd rfl (hrest _ rfl).2.2.2
  · exact if_pos trivial

/-- The digits of a number of 64 bits are read as that number. -/
theorem unsignedNumber_digits {n : Nat} (hn : n < unsignedLimit) (minus : Bool) {rest : List Char}
    (hrest : Ends rest) :
    unsignedNumber minus (Nat.toDigits 10 n ++ rest) = .ok (integerOf minus n, rest) := by
  rw [unsignedNumber, digits_append (fun d hd => isDigit_of_mem_toDigits hd) hrest]
  split
  · next heq => exact absurd (congrArg Prod.fst heq) Nat.toDigits_ne_nil
  · next heq => exact absurd (congrArg Prod.fst heq) Nat.toDigits_ne_nil
  · next heq => exact absurd (congrArg Prod.fst heq) (toDigits_ne_zero_cons n _ _)
  · next heq =>
    cases heq
    exact numberTail_digits hn minus hrest

/-- **A natural number that has been written** is read back, and no sign is found in front of it. -/
theorem number_natural {n : Nat} (hn : n < unsignedLimit) {rest : List Char} (hrest : Ends rest) :
    number (Nat.toDigits 10 n ++ rest) = .ok (.natural n, rest) := by
  have hread := unsignedNumber_digits hn false hrest
  rw [number.eq_def]
  split
  · next heq =>
    -- the first character is a digit
    cases hds : Nat.toDigits 10 n with
    | nil => exact absurd hds Nat.toDigits_ne_nil
    | cons d ds =>
      rw [hds, List.cons_append, List.cons.injEq] at heq
      have hdigit : isDigit d = true := isDigit_of_mem_toDigits (hds ▸ List.mem_cons_self)
      rw [heq.1] at hdigit
      cases hdigit
  · exact hread

/-- A negative number is read back if it fits 64 bits. -/
theorem number_negative {n : Nat} (hpos : 0 < n) (hn : n ≤ signedLimit) {rest : List Char}
    (hrest : Ends rest) :
    number ('-' :: (Nat.toDigits 10 n ++ rest)) = .ok (.negative n, rest) := by
  have hlimit : n < unsignedLimit := Nat.lt_of_le_of_lt hn (by decide)
  rw [number, unsignedNumber_digits hlimit true hrest, integerOf, if_pos rfl, if_pos ⟨hpos, hn⟩]

/-- A number is read if it starts like one. -/
theorem numeral_of_number {expected : String} {blanks : List Char} (hblanks : Blanks blanks)
    {c : Char} {cs : List Char} (hblank : isBlank c = false) (hc : (c = '-' || isDigit c) = true) :
    numeral expected (blanks ++ c :: cs) = number (c :: cs) := by
  have hnumber :
      (if (c = '-' || isDigit c) then (number : Reader Number) else wrongType expected c) =
        number := if_pos hc
  rw [numeral, bind_of_ok (peek_append hblanks hblank cs)]
  exact congrFun hnumber (c :: cs)

/-- No digit is a blank. -/
theorem isBlank_of_isDigit {c : Char} (h : isDigit c = true) : isBlank c = false := by
  rw [isDigit, Bool.and_eq_true, decide_eq_true_iff] at h
  rw [isBlank]
  simp only [Bool.or_eq_false_iff, decide_eq_false_iff_not]
  refine ⟨⟨⟨?_, ?_⟩, ?_⟩, ?_⟩ <;> rintro rfl <;> exact absurd h.1 (by decide)

theorem takes_numeral_natural (expected : String) {n : Nat} (hn : n < unsignedLimit) :
    (numeral expected).Takes (Nat.toDigits 10 n) (.natural n) := by
  intro blanks rest hblanks hrest
  cases hds : Nat.toDigits 10 n with
  | nil => exact absurd hds Nat.toDigits_ne_nil
  | cons d ds =>
    have hdigit : isDigit d = true := isDigit_of_mem_toDigits (hds ▸ List.mem_cons_self)
    have hstart : (d = '-' || isDigit d) = true := by rw [hdigit, Bool.or_true]
    rw [List.cons_append, numeral_of_number hblanks (isBlank_of_isDigit hdigit) hstart,
      ← List.cons_append, ← hds, number_natural hn hrest]

theorem takes_numeral_negative (expected : String) {n : Nat} (hpos : 0 < n) (hn : n ≤ signedLimit) :
    (numeral expected).Takes ('-' :: Nat.toDigits 10 n) (.negative n) := by
  intro blanks rest hblanks hrest
  rw [List.cons_append, numeral_of_number hblanks rfl rfl, number_negative hpos hn hrest]

/-- A natural number is written in its digits. -/
theorem toList_toString_ofNat (k : Nat) : (toString (Int.ofNat k)).toList = Nat.toDigits 10 k :=
  Nat.toList_repr

/-- **A natural number of 64 bits that has been written** is read back. -/
theorem takes_unsigned {n : Nat} (hn : n < unsignedLimit) (layout : Layout) (depth : Nat) :
    unsigned.Takes ((Value.nat n).write layout depth) n := by
  rw [Value.nat, Value.write, ← Int.ofNat_eq_natCast, toList_toString_ofNat]
  exact (takes_numeral_natural "usize" hn).bind_pure rfl

/-- **An integer of 64 bits that has been written** is read back. -/
theorem takes_signed (n : Int64) (layout : Layout) (depth : Nat) :
    signed.Takes ((Value.integer n.toInt).write layout depth) n := by
  have hlow : -2 ^ 63 ≤ n.toInt := n.le_toInt
  have hhigh : n.toInt < 2 ^ 63 := n.toInt_lt
  have hn : Int64.ofInt n.toInt = n := Int64.ofInt_toInt n
  rw [Value.write, signed]
  cases hint : n.toInt with
  | ofNat k =>
    rw [hint, Int.ofNat_eq_natCast] at hhigh hn
    have hk : k < signedLimit := by
      rw [signedLimit]
      omega
    rw [toList_toString_ofNat]
    refine (takes_numeral_natural "i64" (Nat.lt_trans hk (by decide))).bind_pure ?_
    have hnumber : (if k < signedLimit then (pure (Int64.ofNat k) : Reader Int64)
        else mismatch (.wrongValue "i64")) = pure (Int64.ofNat k) := if_pos hk
    rw [← hn]
    exact hnumber
  | negSucc k =>
    rw [hint] at hlow hn
    have hk : k + 1 ≤ signedLimit := by
      rw [signedLimit]
      omega
    have hdigits : (toString (Int.negSucc k)).toList = '-' :: Nat.toDigits 10 (k + 1) := by
      rw [Int.toString_eq_repr, Int.repr, String.toList_append, Nat.toList_repr]
      rfl
    rw [hdigits]
    refine (takes_numeral_negative "i64" k.succ_pos hk).bind_pure ?_
    rw [← hn]
    rfl

/-! ### Objects -/

/-- **The members of an object are taken** one after the other, each into what has been read before
it. -/
inductive TakesMembers (member : α → String → Reader α) (layout : Layout) (depth : Nat) :
    α → List (String × Value) → α → Prop
  | nil (a : α) : TakesMembers member layout depth a [] a
  | cons {a b c : α} {key : String} {v : Value} {ms : List (String × Value)}
    (first : (member a key).Takes (layout.colon ++ v.write layout depth) b)
    (others : TakesMembers member layout depth b ms c) :
    TakesMembers member layout depth a ((key, v) :: ms) c

/-- The colon, with the value behind it. -/
theorem takes_colon {r : Reader α} {cs : List Char} {a : α} (h : r.Takes cs a) (layout : Layout) :
    (colon >>= fun _ => r).Takes (layout.colon ++ cs) a := by
  intro blanks rest hblanks hrest
  have hcolon : ∀ cs, colon (blanks ++ ':' :: cs) = .ok ((), cs) := by
    intro cs
    rw [colon, bind_of_ok (peek_append hblanks rfl cs)]
    rfl
  cases layout with
  | compact =>
    rw [List.append_assoc]
    exact (bind_of_ok (hcolon _)).trans (h [] rest blanks_nil hrest)
  | indented =>
    rw [List.append_assoc]
    refine (bind_of_ok (hcolon _)).trans (h [' '] rest ?_ hrest)
    intro c hc
    rw [List.mem_singleton.1 hc]
    rfl

theorem ends_of_blanks {blanks : List Char} (h : Blanks blanks) {rest : List Char}
    (hrest : Ends rest) : Ends (blanks ++ rest) := by
  cases blanks with
  | nil => exact hrest
  | cons c cs =>
    have hc := h c List.mem_cons_self
    refine ends_cons ⟨?_, ?_, ?_, ?_⟩ _
    · rw [← Bool.not_eq_true]
      intro hdigit
      rw [isBlank_of_isDigit hdigit] at hc
      cases hc
    all_goals
      rintro rfl
      cases hc

/-- What may stand behind a member of an object. -/
theorem ends_writeMembers (layout : Layout) (depth : Nat) (ms : List (String × Value))
    {blanks : List Char} (hblanks : Blanks blanks) (rest : List Char) :
    Ends (writeMembers layout depth ms ++ (blanks ++ '\x7d' :: rest)) := by
  cases ms with
  | nil => exact ends_of_blanks hblanks (ends_cons (by decide) rest)
  | cons m ms => exact ends_cons (by decide) _

variable {member : α → String → Reader α} {layout : Layout} {depth : Nat}

/-- Behind the brace there is a member if a quote comes next. -/
theorem nextMember_quote {blanks : List Char} (hblanks : Blanks blanks) (rest : List Char) :
    nextMember true (blanks ++ '"' :: rest) = .ok (true, rest) := by
  rw [nextMember, bind_of_ok (peek_append hblanks rfl rest)]
  rfl

/-- Behind a member there is another one if a comma and a quote come next. -/
theorem nextMember_comma {blanks : List Char} (hblanks : Blanks blanks) (rest : List Char) :
    nextMember false (',' :: (blanks ++ '"' :: rest)) = .ok (true, rest) := by
  have hadvance : advance (',' :: (blanks ++ '"' :: rest)) = .ok ((), blanks ++ '"' :: rest) := rfl
  rw [nextMember, bind_of_ok (peek_cons rfl _)]
  refine (bind_of_ok hadvance).trans ?_
  refine (bind_of_ok (peek_append hblanks rfl rest)).trans ?_
  rfl

/-- There is no other member if a brace comes next. -/
theorem nextMember_brace (first : Bool) {blanks : List Char} (hblanks : Blanks blanks)
    (rest : List Char) :
    nextMember first (blanks ++ '\x7d' :: rest) = .ok (false, '\x7d' :: rest) := by
  rw [nextMember, bind_of_ok (peek_append hblanks rfl rest)]
  rfl

/-- One member, where the opening quote of its key comes next. -/
theorem members_of_next {n : Nat} {first : Bool} {a b : α} {key : String} {cs vs rest : List Char}
    (hnext : nextMember first cs = .ok (true, key.toList.flatMap escape ++ '"' :: (vs ++ rest)))
    (hmember : (member a key).Takes vs b) (hrest : Ends rest) :
    members member (n + 1) first a cs = members member n false b rest := by
  rw [members, bind_of_ok hnext]
  simp only [if_true]
  exact (bind_of_ok (body_escape key _)).trans (bind_of_ok (hmember [] rest blanks_nil hrest))

/-- The members behind the first one, and the end of the object. -/
theorem members_written {a c : α} {ms : List (String × Value)}
    (h : TakesMembers member layout depth a ms c) {blanks : List Char} (hblanks : Blanks blanks)
    (rest : List Char) {n : Nat} (hn : ms.length < n) :
    members member n false a (writeMembers layout depth ms ++ (blanks ++ '\x7d' :: rest)) =
      .ok (c, rest) := by
  induction h generalizing n with
  | nil a =>
    obtain ⟨n, rfl⟩ := Nat.exists_eq_add_of_lt hn
    rw [writeMembers, List.nil_append, members, bind_of_ok (nextMember_brace false hblanks rest)]
    rfl
  | @cons a b c key v ms first others ih =>
    obtain ⟨n, rfl⟩ := Nat.exists_eq_add_of_lt hn
    have hnext : nextMember false
        (writeMembers layout depth ((key, v) :: ms) ++ (blanks ++ '\x7d' :: rest)) =
        .ok (true, key.toList.flatMap escape ++ '"' :: (layout.colon ++ v.write layout depth ++
          (writeMembers layout depth ms ++ (blanks ++ '\x7d' :: rest)))) := by
      have htext : writeMembers layout depth ((key, v) :: ms) ++ (blanks ++ '\x7d' :: rest) =
          ',' :: (layout.break depth ++ '"' :: (key.toList.flatMap escape ++
            '"' :: (layout.colon ++ v.write layout depth ++
              (writeMembers layout depth ms ++ (blanks ++ '\x7d' :: rest))))) := by
        rw [writeMembers, quote]
        simp only [List.append_assoc, List.cons_append, List.nil_append]
      rw [htext, nextMember_comma (blanks_break layout depth)]
    rw [members_of_next hnext first (ends_writeMembers layout depth ms hblanks rest)]
    refine ih ?_
    rw [List.length_cons]
    omega

theorem length_le_writeMembers (layout : Layout) (depth : Nat) (ms : List (String × Value)) :
    ms.length ≤ (writeMembers layout depth ms).length := by
  induction ms with
  | nil => exact Nat.zero_le _
  | cons m ms ih =>
    rw [writeMembers, List.length_append, List.length_cons]
    simp only [List.length_cons, List.length_append]
    omega

/-- **An object that has been written** is read from behind its brace, if its members are taken one
after the other. -/
theorem objectBody_written {a c : α} {ms : List (String × Value)}
    (h : TakesMembers member layout (depth + 1) a ms c) (rest : List Char) :
    ∃ cs, (Value.object ms).write layout depth ++ rest = '\x7b' :: cs ∧
      objectBody member a cs = .ok (c, rest) := by
  cases h with
  | nil =>
    refine ⟨'\x7d' :: rest, ?_, ?_⟩
    · rw [Value.write]
      rfl
    · rfl
  | @cons _ b _ key v ms first others =>
    have hblanks := blanks_break layout depth
    refine ⟨layout.break (depth + 1) ++ '"' :: (key.toList.flatMap escape ++
      '"' :: (layout.colon ++ v.write layout (depth + 1) ++
        (writeMembers layout (depth + 1) ms ++ (layout.break depth ++ '\x7d' :: rest)))), ?_, ?_⟩
    · rw [Value.write, quote]
      simp only [List.append_assoc, List.cons_append, List.nil_append]
    · rw [objectBody, members_of_next (nextMember_quote (blanks_break layout (depth + 1)) _) first
        (ends_writeMembers layout (depth + 1) ms hblanks rest)]
      refine members_written others hblanks rest ?_
      have hlength := length_le_writeMembers layout (depth + 1) ms
      simp only [List.length_append, List.length_cons]
      omega

end Reader

end BlockLedger.Json
