import BlockLedger.Pieces
import BlockLedger.Text.Clusters
import BlockLedger.Text.Columns

/-!
# Broken lines

A line that is too wide for its place is broken at blanks. Words are put on a line as long as they
fit, and a line with next to no room left is ended. A word that is wider than a whole line is cut
between clusters: as many of them as fit are put on the line, and the rest is treated as a word of
its own. What is left of a cut word is shorter than the word, so breaking comes to an end.

Breaking a line loses nothing but blanks (`inked_flatten_broken`).
-/

namespace BlockLedger.Text

/-- Puts clusters behind those in `taken`, last character first, as long as they fit into the room;
gives what has been put there, and the rest. -/
def cutAfter (taken : List Char) (room : Nat) : List (List Char) → List Char × List Char
  | [] => (taken.reverse, [])
  | g :: gs =>
    if columns g ≤ room then cutAfter (g.reverse ++ taken) (room - columns g) gs
    else (taken.reverse, (g :: gs).flatten)

/-- **A word cut in two**, the first part being as long as fits into the room. -/
def cut (room : Nat) (word : List Char) : List Char × List Char :=
  cutAfter [] room (clusters word)

theorem cutAfter_append (taken : List Char) (room : Nat) (gs : List (List Char)) :
    (cutAfter taken room gs).1 ++ (cutAfter taken room gs).2 = taken.reverse ++ gs.flatten := by
  fun_induction cutAfter taken room gs <;> simp_all

/-- The two parts make up the word. -/
theorem cut_append (room : Nat) (word : List Char) :
    (cut room word).1 ++ (cut room word).2 = word := by
  rw [cut, cutAfter_append, flatten_clusters]
  rfl

/-- A word cut in two, the first part not being empty even if there is no room for it. -/
def cutSome (room : Nat) (word : List Char) : List Char × List Char :=
  if (cut room word).1 = [] then (word.take 1, word.drop 1) else cut room word

theorem length_cut_snd_le (room : Nat) (word : List Char) :
    (cut room word).2.length ≤ word.length := by
  have h := congrArg List.length (cut_append room word)
  rw [List.length_append] at h
  omega

/-- What is left of a word is shorter. -/
theorem length_cutSome_snd_lt (room : Nat) {word : List Char} (hw : word ≠ []) :
    (cutSome room word).2.length < word.length := by
  have h := congrArg List.length (cut_append room word)
  rw [List.length_append] at h
  have hl := List.length_pos_iff.2 hw
  unfold cutSome
  split
  · simp only [List.length_drop]
    omega
  · next hc =>
    have := List.length_pos_iff.2 hc
    omega

/-- A line with no more room than this is ended. -/
def leastRoom : Nat := 2

/-- The characters of words and the blanks between them. -/
def extent (words : List (List Char)) : Nat := (words.map fun w => w.length + 1).foldr (· + ·) 0

/-- The line that the words, the last of which comes first, make up. -/
def lineOf (reversed : List (List Char)) : List Char := joined ' ' reversed.reverse

theorem extent_cons (word : List Char) (words : List (List Char)) :
    extent (word :: words) = word.length + 1 + extent words := rfl

theorem ne_nil_of_lt_columns {width : Nat} {word : List Char} (h : width < columns word) :
    word ≠ [] := by
  rintro rfl
  exact absurd h (Nat.not_lt_zero _)

/-- The lines for words, behind the words that are on the first line already (the last of them comes
first) and take `used` columns. A line that holds nothing yet is not begun by an empty word. -/
def fill (width : Nat) (line : List (List Char)) (used : Nat) : List (List Char) → List (List Char)
  | [] => if line = [] then [] else [lineOf line]
  | word :: words =>
    if line = [] then
      if width < columns word then
        lineOf [(cutSome width word).1] :: fill width [] 0 ((cutSome width word).2 :: words)
      else if width - leastRoom < columns word then lineOf [word] :: fill width [] 0 words
      else fill width (if word = [] then [] else [word]) (columns word) words
    else if used + 1 + columns word ≤ width then
      if width - leastRoom < used + 1 + columns word then
        lineOf (word :: line) :: fill width [] 0 words
      else fill width (word :: line) (used + 1 + columns word) words
    else if width - (used + 1) ≤ leastRoom ∨ columns word ≤ width then
      lineOf line :: fill width [] 0 (word :: words)
    else
      lineOf ((cut (width - (used + 1)) word).1 :: line)
        :: fill width [] 0 ((cut (width - (used + 1)) word).2 :: words)
  termination_by words => (extent words, line.length)
  decreasing_by
    · have := length_cutSome_snd_lt width (ne_nil_of_lt_columns (by assumption))
      apply Prod.Lex.left
      simp only [extent_cons]
      omega
    · apply Prod.Lex.left
      simp only [extent_cons]
      omega
    · apply Prod.Lex.left
      simp only [extent_cons]
      omega
    · apply Prod.Lex.left
      simp only [extent_cons]
      omega
    · apply Prod.Lex.left
      simp only [extent_cons]
      omega
    · apply Prod.Lex.right
      exact List.length_pos_iff.2 (by assumption)
    · have := length_cut_snd_le (width - (used + 1)) word
      rcases Nat.lt_or_eq_of_le this with h | h
      · apply Prod.Lex.left
        simp only [extent_cons]
        omega
      · rw [extent_cons, extent_cons, h]
        apply Prod.Lex.right
        exact List.length_pos_iff.2 (by assumption)

/-- **The lines that a line is broken into**, if it does not fit. -/
def broken (width : Nat) (line : List Char) : List (List Char) :=
  if columns line ≤ width then [line] else fill width [] 0 (pieces ' ' line)

/-! ### Nothing but blanks is lost -/

/-- The characters of a text that are no blanks. -/
def inked (cs : List Char) : List Char := cs.filter (· ≠ ' ')

@[simp] theorem inked_nil : inked [] = [] := rfl

@[simp] theorem inked_append (a b : List Char) : inked (a ++ b) = inked a ++ inked b := by
  simp [inked]

theorem inked_joined (ps : List (List Char)) : inked (joined ' ' ps) = inked ps.flatten := by
  fun_induction joined ' ' ps with
  | case1 => rfl
  | case2 p => simp
  | case3 p ps _ ih =>
    rw [List.flatten_cons, inked_append, inked_append, ← ih]
    rfl

theorem inked_lineOf (ws : List (List Char)) : inked (lineOf ws) = inked ws.reverse.flatten :=
  inked_joined _

theorem cutSome_append (room : Nat) (word : List Char) :
    (cutSome room word).1 ++ (cutSome room word).2 = word := by
  unfold cutSome
  split
  · exact List.take_append_drop 1 word
  · exact cut_append room word

theorem inked_fill (width : Nat) (line : List (List Char)) (used : Nat)
    (words : List (List Char)) :
    inked (fill width line used words).flatten
      = inked line.reverse.flatten ++ inked words.flatten := by
  fun_induction fill width line used words with
  | case1 used => rfl
  | case2 line used h => simp [inked_lineOf]
  | case3 used word words h ih =>
    have hc := congrArg inked (cutSome_append width word)
    rw [inked_append] at hc
    simp [inked_lineOf, ih, ← hc]
  | case4 used word words _ _ ih => simp_all [inked_lineOf]
  | case5 used word words _ _ ih => split at ih <;> simp_all
  | case6 line used word words _ _ _ ih => simp_all [inked_lineOf]
  | case7 line used word words _ _ _ ih => simp_all
  | case8 line used word words _ _ _ ih => simp_all [inked_lineOf]
  | case9 line used word words _ _ _ ih =>
    have hc := congrArg inked (cut_append (width - (used + 1)) word)
    rw [inked_append] at hc
    simp [inked_lineOf, ih, ← hc]

/-- Breaking a line loses nothing but blanks. -/
theorem inked_flatten_broken (width : Nat) (line : List Char) :
    inked (broken width line).flatten = inked line := by
  unfold broken
  split
  · simp
  · rw [inked_fill, ← inked_joined (pieces ' ' line), joined_pieces]
    simp

end BlockLedger.Text
