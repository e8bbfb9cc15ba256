/-!
# Joining neighbours

A row of things is joined two by two into a row of half the length, rounded up; the last thing of an
odd row stays alone. Place `p` of the new row is made from places `2 * p` and `2 * p + 1` of the old
one (`getElem?_pairUp`).
-/

namespace BlockLedger

variable {α β : Type}

/-- The row whose things are made of two neighbours, or of the last one alone. -/
def pairUp (one : α → β) (two : α → α → β) : List α → List β
  | [] => []
  | [a] => [one a]
  | a :: b :: rest => two a b :: pairUp one two rest

/-- The things at two neighbouring places joined, if the first place is taken. -/
def joinAt (one : α → β) (two : α → α → β) (row : List α) (p : Nat) : Option β :=
  match row[2 * p]?, row[2 * p + 1]? with
  | some a, some b => some (two a b)
  | some a, none => some (one a)
  | none, _ => none

theorem length_pairUp (one : α → β) (two : α → α → β) (row : List α) :
    (pairUp one two row).length = (row.length + 1) / 2 := by
  fun_induction pairUp one two row with
  | case1 => simp
  | case2 => simp
  | case3 a b rest ih =>
    simp only [List.length_cons, ih]
    omega

theorem getElem?_pairUp (one : α → β) (two : α → α → β) (row : List α) (p : Nat) :
    (pairUp one two row)[p]? = joinAt one two row p := by
  fun_induction pairUp one two row generalizing p with
  | case1 => simp [joinAt]
  | case2 a => cases p <;> simp [joinAt, Nat.mul_add]
  | case3 a b rest ih =>
    cases p with
    | zero => simp [joinAt]
    | succ p => simp [ih, joinAt, Nat.mul_add]

end BlockLedger
