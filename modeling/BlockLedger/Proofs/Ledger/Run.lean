import BlockLedger.Proofs.Ledger.Accept
import Mathlib.Data.List.Induction

/-!
# Runs of a ledger

A run starts with a ledger that has just been made (`Ledger.Started`) and performs calls one after the
other, each on the ledger and the files the call before has left. The file system carries the failures
that are to come, so a statement about all runs is also one about all ways in which the journal can
fail.

What holds of the start of a run and is preserved by each call holds at its end
(`Ledger.run_induction`).
-/

namespace BlockLedger.Ledger

/-- What some calls have led to: the answers in order, the ledger and the files. -/
structure Run where
  answers : List (Except LedgerFault Answer)
  ledger : Ledger
  files : FileSystem

/-- One more call. -/
def Run.next (r : Run) (c : Call) : Run :=
  let o := r.ledger.perform r.files c
  ⟨r.answers ++ [o.result], o.ledger, o.files⟩

/-- **Performing calls** one after the other. -/
def run (l : Ledger) (fs : FileSystem) (calls : List Call) : Run := calls.foldl Run.next ⟨[], l, fs⟩

/-- **A ledger that has just been made**: an empty one, or one over a journal. -/
inductive Started : Ledger → FileSystem → Prop
  | new (limit : Nat) (fs : FileSystem) : Started (.new limit) fs
  | ofJournal {limit : Nat} {fs : FileSystem} {j : Journal} {l : Ledger}
    (h : Ledger.ofJournal limit fs j = .ok l) : Started l fs

theorem run_concat (l : Ledger) (fs : FileSystem) (calls : List Call) (c : Call) :
    l.run fs (calls ++ [c]) = (l.run fs calls).next c := by
  rw [run, List.foldl_append, List.foldl_cons, List.foldl_nil, run]

/-- **What each call preserves** holds of every run. -/
theorem run_induction {P : Run → Prop} {l : Ledger} {fs : FileSystem} (hstart : P ⟨[], l, fs⟩)
    (hnext : ∀ r c, P r → P (r.next c)) (calls : List Call) : P (l.run fs calls) := by
  induction calls using List.reverseRecOn with
  | nil => exact hstart
  | append_singleton calls c ih =>
    rw [run_concat]
    exact hnext _ c ih

end BlockLedger.Ledger
