/-!
# Pieces between separators

A list is cut at every place where a separator stands. There is always at least one piece, no piece
holds a separator (`separator_notMem_of_mem_pieces`), and the pieces with the separators between them
make up the list again (`joined_pieces`).
-/

namespace BlockLedger

variable {α : Type}

/-- The parts of a list between the separators; `before` is what has been read of the first one,
last element first. -/
def piecesAfter [DecidableEq α] (separator : α) (before : List α) : List α → List (List α)
  | [] => [before.reverse]
  | a :: as =>
    if a = separator then before.reverse :: piecesAfter separator [] as
    else piecesAfter separator (a :: before) as

/-- **The parts of a list between the separators.** -/
def pieces [DecidableEq α] (separator : α) (l : List α) : List (List α) :=
  piecesAfter separator [] l

/-- The parts of a list put together again. -/
def joined (separator : α) : List (List α) → List α
  | [] => []
  | [p] => p
  | p :: ps => p ++ separator :: joined separator ps

variable [DecidableEq α]

theorem piecesAfter_ne_nil (separator : α) (before l : List α) :
    piecesAfter separator before l ≠ [] := by
  fun_induction piecesAfter separator before l <;> simp_all

theorem joined_piecesAfter (separator : α) (before l : List α) :
    joined separator (piecesAfter separator before l) = before.reverse ++ l := by
  fun_induction piecesAfter separator before l with
  | case1 before => simp [joined]
  | case2 before as ih =>
    rw [joined]
    · simp [ih]
    · exact piecesAfter_ne_nil _ _ _
  | case3 before a as h ih => simp [ih]

theorem joined_pieces (separator : α) (l : List α) :
    joined separator (pieces separator l) = l :=
  joined_piecesAfter separator [] l

theorem separator_notMem_of_mem_piecesAfter {separator : α} {before l p : List α}
    (hb : separator ∉ before) (h : p ∈ piecesAfter separator before l) : separator ∉ p := by
  fun_induction piecesAfter separator before l with
  | case1 before => simp_all
  | case2 before as ih =>
    rcases List.mem_cons.1 h with rfl | h
    · simpa using hb
    · exact ih (by simp) h
  | case3 before a as hne ih => exact ih (by simp [hb, Ne.symm hne]) h

/-- No piece holds a separator. -/
theorem separator_notMem_of_mem_pieces {separator : α} {l p : List α}
    (h : p ∈ pieces separator l) : separator ∉ p :=
  separator_notMem_of_mem_piecesAfter (by simp) h

end BlockLedger
