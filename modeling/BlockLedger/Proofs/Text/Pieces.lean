import BlockLedger.Pieces
import Mathlib.Data.List.Basic

/-!
# Pieces of a list that is put together

A separator ends one piece and starts the next one, so the pieces of two lists with a separator between
them are those of the one and those of the other (`pieces_append`). A list without a separator is one
piece (`pieces_of_notMem`).
-/

namespace BlockLedger

variable {α : Type} [DecidableEq α]

theorem piecesAfter_append (separator : α) (before a b : List α) :
    piecesAfter separator before (a ++ separator :: b) =
      piecesAfter separator before a ++ pieces separator b := by
  fun_induction piecesAfter separator before a with
  | case1 before =>
    rw [List.nil_append, piecesAfter, if_pos rfl]
    rfl
  | case2 before as ih => rw [List.cons_append, piecesAfter, if_pos rfl, ih, List.cons_append]
  | case3 before a as hne ih => rw [List.cons_append, piecesAfter, if_neg hne, ih]

/-- A separator ends one piece and starts the next one. -/
theorem pieces_append (separator : α) (a b : List α) :
    pieces separator (a ++ separator :: b) = pieces separator a ++ pieces separator b :=
  piecesAfter_append separator [] a b

/-- Without a separator there is one piece. -/
theorem pieces_of_notMem {separator : α} {l : List α} (h : separator ∉ l) :
    pieces separator l = [l] := by
  -- the induction needs what has been read of the piece
  have hafter : ∀ before, piecesAfter separator before l = [before.reverse ++ l] := by
    induction l with
    | nil =>
      intro before
      rw [piecesAfter, List.append_nil]
    | cons a l ih =>
      obtain ⟨hne, hmem⟩ := List.ne_and_not_mem_of_not_mem_cons h
      intro before
      rw [piecesAfter, if_neg (Ne.symm hne), ih hmem, List.reverse_cons, List.append_assoc,
        List.singleton_append]
  exact hafter []

end BlockLedger
