import BlockLedger.Proofs.Journal.Records
import BlockLedger.Proofs.Journal.Reopen
import Mathlib.Data.List.TakeWhile

/-!
# Records that have been cut off

Of the records of some blocks only so many bytes may have reached a file. The records that lie
wholly within these bytes are counted by `wholeRecords`. Opening the journal leaves exactly them
(`completePart_take_recordsOf`): a record has one line feed, at its end, so what there is of a
record that has been cut off holds none, wherever the cut is. It makes no difference to recovery
whether the records have been appended together: those of a batch are kept one by one.

A journal that lies at its path is settled once it has been opened again
(`Journal.Located.exists_openAt_eq`), and it holds what was complete.
-/

namespace BlockLedger

/-! ### The complete part -/

/-- A complete byte string in front is left as it is. -/
theorem Complete.completePart_append {a : Bytes} (h : Complete a) (b : Bytes) :
    completePart (a ++ b) = a ++ completePart b := by
  rw [completePart, List.reverse_append, List.dropWhile_append]
  split
  · next hnone =>
    -- the bytes behind hold no line feed
    have hb : completePart b = [] := by
      rw [completePart, List.isEmpty_iff.1 hnone, List.reverse_nil]
    rw [hb, List.append_nil]
    exact h.completePart_eq
  · rw [List.reverse_append, List.reverse_reverse, completePart]

/-- Without a line feed nothing is complete. -/
theorem completePart_of_notMem {bytes : Bytes} (h : lineFeed ∉ bytes) :
    completePart bytes = [] := by
  have hall : ∀ b ∈ bytes.reverse, decide (b ≠ lineFeed) = true := by
    intro b hb
    refine decide_eq_true ?_
    rintro rfl
    exact h (List.mem_reverse.1 hb)
  rw [completePart, List.dropWhile_eq_nil_iff.2 hall, List.reverse_nil]

/-- Of a record that has been cut off nothing is complete. -/
theorem completePart_take_record {b : Block} {n : Nat} (h : n < b.toRecord.length) :
    completePart (b.toRecord.take n) = [] := by
  rw [Block.toRecord, List.length_append, List.length_singleton, Nat.lt_succ_iff] at h
  refine completePart_of_notMem fun hmem => b.lineFeed_notMem_encode ?_
  rw [Block.toRecord, List.take_append_of_le_length h] at hmem
  exact List.mem_of_mem_take hmem

/-! ### Whole records -/

/-- **The number of records that lie wholly within so many bytes** of the records of some blocks. -/
def wholeRecords : List Block → Nat → Nat
  | [], _ => 0
  | b :: bs, n => if b.toRecord.length ≤ n then wholeRecords bs (n - b.toRecord.length) + 1 else 0

/-- **What is complete of records that have been cut off** are the whole records. The induction is
on the blocks: the first one is cut off, or it is whole and the others are cut off somewhere. -/
theorem completePart_take_recordsOf (blocks : List Block) (n : Nat) :
    completePart ((recordsOf blocks).take n) =
      recordsOf (blocks.take (wholeRecords blocks n)) := by
  induction blocks generalizing n with
  | nil => rw [recordsOf, List.flatMap_nil, List.take_nil]; rfl
  | cons b bs ih =>
    rw [recordsOf, List.flatMap_cons, ← recordsOf, wholeRecords]
    by_cases hle : b.toRecord.length ≤ n
    · rw [if_pos hle, List.take_append, List.take_of_length_le hle,
        (complete_record b).completePart_append, ih]
      rfl
    · have hlt : n < b.toRecord.length := Nat.lt_of_not_le hle
      rw [if_neg hle, List.take_append_of_le_length (Nat.le_of_lt hlt),
        completePart_take_record hlt]
      rfl

/-- A record lies wholly within so many bytes iff it ends within them. The induction is on the blocks:
what is in front of a record is one record less for the others. -/
theorem lt_wholeRecords_iff {blocks : List Block} {n i : Nat} :
    i < wholeRecords blocks n ↔
      i < blocks.length ∧ (recordsOf (blocks.take (i + 1))).length ≤ n := by
  induction blocks generalizing n i with
  | nil => simp [wholeRecords]
  | cons b bs ih =>
    have hlength : ∀ k, (recordsOf ((b :: bs).take (k + 1))).length =
        b.toRecord.length + (recordsOf (bs.take k)).length := by
      intro k
      rw [List.take_succ_cons, recordsOf, List.flatMap_cons, List.length_append, ← recordsOf]
    rw [wholeRecords, hlength, List.length_cons]
    cases i with
    | zero =>
      have hnone : (recordsOf (bs.take 0)).length = 0 := rfl
      split <;> omega
    | succ i =>
      split
      · next hle =>
        rw [Nat.succ_lt_succ_iff, ih]
        omega
      · next hlt => omega

/-- If bytes are missing, the record of some block is not whole. -/
theorem wholeRecords_lt {blocks : List Block} {n : Nat} (h : n < (recordsOf blocks).length) :
    wholeRecords blocks n < blocks.length := by
  induction blocks generalizing n with
  | nil => cases h
  | cons b bs ih =>
    rw [recordsOf, List.flatMap_cons, ← recordsOf, List.length_append] at h
    rw [wholeRecords, List.length_cons]
    split
    · next hle => exact Nat.succ_lt_succ (ih (by omega))
    · exact Nat.succ_pos _

/-! ### Opening again -/

/-- **A journal that lies at its path** is settled once it has been opened again. It is the same
file, which now holds what was complete in it. -/
theorem Journal.Located.exists_openAt_eq {j : Journal} {fs : FileSystem} (h : j.Located fs) :
    ∃ j' trimmed, Journal.openAt fs j.path = (.ok j', trimmed) ∧ j'.Settled trimmed ∧
      j'.path = j.path ∧ j'.handle = j.handle ∧
      trimmed.bytesOf j.handle = completePart (fs.bytesOf j.handle) := by
  obtain ⟨hextends, hlength, hbytes, hcommitted⟩ := Journal.trim_spec h.inside
  let j' : Journal := ⟨j.path, j.handle, (Journal.trim fs j.handle).1, false⟩
  have hlocated : j'.Located (Journal.trim fs j.handle).2 :=
    h.of_rewrites ⟨hextends, hlength⟩ rfl rfl
  have hvouches : j'.Vouches (Journal.trim fs j.handle).2 (completePart (fs.bytesOf j.handle)) :=
    ⟨hlocated, ⟨[], by rw [List.append_nil, hbytes]⟩, hcommitted, fun _ => hbytes⟩
  exact ⟨j', _, h.openAt_eq, hvouches.settled (complete_completePart _) rfl, rfl, rfl, hbytes⟩

end BlockLedger
