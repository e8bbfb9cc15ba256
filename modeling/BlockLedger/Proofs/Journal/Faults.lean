import BlockLedger.Proofs.Journal.Reopen
import Mathlib.Data.List.Induction

/-!
# Appends that fail

Appends are made one after the other on one journal, and the file system carries the failures that
are to befall them. Each append keeps what the journal vouches for, and adds its records if it
succeeds. So after any number of appends the file starts with what it held when it was opened,
followed by the records of the appends that have succeeded (`Journal.appendEach_vouches`). A journal
that cannot take a failed append back is poisoned, and nothing changes any more.
-/

namespace BlockLedger.Journal

open FileSystem

variable {fs : FileSystem} {j : Journal} {kept : Bytes}

/-! ### Appends one after the other -/

/-- What some appends have led to: the results in order, the journal and the files. -/
structure Appends where
  results : List (Except JournalFault Unit)
  journal : Journal
  files : FileSystem

/-- One more append. -/
def Appends.next (r : Appends) (blocks : List Block) : Appends :=
  let a := r.journal.append r.files blocks
  ⟨r.results ++ [a.result], a.journal, a.files⟩

/-- **Appends** one after the other. -/
def appendEach (j : Journal) (fs : FileSystem) (calls : List (List Block)) : Appends :=
  calls.foldl Appends.next ⟨[], j, fs⟩

/-- The blocks of the appends that have succeeded, in order. -/
def acknowledged (calls : List (List Block)) (results : List (Except JournalFault Unit)) :
    List Block :=
  ((calls.zip results).filter (·.2.isOk)).flatMap (·.1)

theorem appendEach_concat (j : Journal) (fs : FileSystem) (calls : List (List Block))
    (blocks : List Block) :
    j.appendEach fs (calls ++ [blocks]) = (j.appendEach fs calls).next blocks := by
  rw [appendEach, List.foldl_append, List.foldl_cons, List.foldl_nil, appendEach]

theorem length_results (j : Journal) (fs : FileSystem) (calls : List (List Block)) :
    (j.appendEach fs calls).results.length = calls.length := by
  induction calls using List.reverseRecOn with
  | nil => rfl
  | append_singleton calls blocks ih =>
    rw [appendEach_concat, Appends.next, List.length_append, List.length_append, ih]
    rfl

theorem recordsOf_append (a b : List Block) : recordsOf (a ++ b) = recordsOf a ++ recordsOf b :=
  List.flatMap_append

/-- One more append adds its records if it has succeeded. -/
theorem recordsOf_acknowledged_concat {calls : List (List Block)}
    {results : List (Except JournalFault Unit)} (hlength : results.length = calls.length)
    (blocks : List Block) (result : Except JournalFault Unit) :
    recordsOf (acknowledged (calls ++ [blocks]) (results ++ [result])) =
      recordsOf (acknowledged calls results) ++
        if result.isOk then recordsOf blocks else [] := by
  have hconcat : acknowledged (calls ++ [blocks]) (results ++ [result]) =
      acknowledged calls results ++ if result.isOk then blocks else [] := by
    rw [acknowledged, List.zip_append hlength.symm, List.filter_append, List.flatMap_append,
      acknowledged]
    cases result with
    | error e => rfl
    | ok u => exact congrArg _ (List.append_nil blocks)
  rw [hconcat, recordsOf_append]
  cases result <;> rfl

/-- The invariant of appends: the journal vouches for what was there and for what has been
acknowledged. -/
theorem Vouches.appendEach (h : j.Vouches fs kept) (calls : List (List Block)) :
    (j.appendEach fs calls).journal.Vouches (j.appendEach fs calls).files
        (kept ++ recordsOf (acknowledged calls (j.appendEach fs calls).results)) ∧
      (j.appendEach fs calls).journal.path = j.path ∧
      (j.appendEach fs calls).journal.handle = j.handle := by
  induction calls using List.reverseRecOn with
  | nil =>
    refine ⟨?_, rfl, rfl⟩
    change j.Vouches fs (kept ++ [])
    rw [List.append_nil]
    exact h
  | append_singleton calls blocks ih =>
    obtain ⟨hvouches, hpath, hhandle⟩ := ih
    obtain ⟨hpath', hhandle'⟩ :=
      (j.appendEach fs calls).journal.append_path (j.appendEach fs calls).files blocks
    rw [appendEach_concat, Appends.next]
    refine ⟨?_, hpath'.trans hpath, hhandle'.trans hhandle⟩
    rw [recordsOf_acknowledged_concat (length_results j fs calls), ← List.append_assoc]
    exact hvouches.append blocks

/-- **A poisoned journal** refuses all appends, and they change nothing. -/
theorem appendEach_of_poisoned (h : j.poisoned = true) (fs : FileSystem)
    (calls : List (List Block)) :
    j.appendEach fs calls = ⟨calls.map fun _ => .error (.poisoned j.path), j, fs⟩ := by
  induction calls using List.reverseRecOn with
  | nil => rfl
  | append_singleton calls blocks ih =>
    rw [appendEach_concat, ih, Appends.next, append_of_poisoned h, List.map_append]
    rfl

/-- **After any number of appends**, whichever of them fail and however taking them back goes, the
file starts with what it held when the journal was opened, followed by the records of the appends
that have succeeded, and the journal has counted these bytes. While the journal is not poisoned
there is nothing else in the file, and an append that fails without poisoning it changes no byte.
Once it is poisoned all appends are refused for that reason, and they change neither the journal nor
the files. -/
theorem appendEach_vouches {path : String} {opened : FileSystem} (hsound : fs.Sound)
    (hopen : openAt fs path = (.ok j, opened)) (calls : List (List Block)) :
    ∃ base, opened.read path = .ok base ∧ Complete base ∧
      let r := j.appendEach opened calls
      let kept := base ++ recordsOf (acknowledged calls r.results)
      r.results.length = calls.length ∧
        r.journal.committed = kept.length ∧
        (∃ rest, r.files.read path = .ok (kept ++ rest) ∧
          (r.journal.poisoned = false → rest = [])) ∧
        (∀ blocks, (r.journal.append r.files blocks).result.isOk = false →
          (r.journal.append r.files blocks).journal.poisoned = false →
            (r.journal.append r.files blocks).journal = r.journal ∧
              (r.journal.append r.files blocks).files.read path = r.files.read path) ∧
        (r.journal.poisoned = true → ∀ more,
          r.journal.appendEach r.files more =
            ⟨more.map fun _ => .error (.poisoned path), r.journal, r.files⟩) := by
  obtain ⟨rfl, hsettled⟩ := settled_of_openAt hsound hopen
  refine ⟨opened.bytesOf j.handle, hsettled.located.read_eq, hsettled.complete, ?_⟩
  intro r kept
  obtain ⟨hvouches, hpath, hhandle⟩ := hsettled.vouches.appendEach calls
  refine ⟨length_results j opened calls, hvouches.counted, ?_, fun blocks hfailed hclean => ?_,
    fun hpoisoned more => ?_⟩
  · rw [← hpath]
    exact hvouches.exists_read_eq
  · obtain ⟨hsame, hbytes⟩ := hvouches.append_failed hfailed hclean
    have hlocated := (hvouches.append blocks).toLocated
    refine ⟨hsame, ?_⟩
    rw [hsame] at hlocated
    rw [← hpath, hlocated.read_eq, hvouches.read_eq, hbytes]
  · rw [appendEach_of_poisoned hpoisoned, hpath]

/-- A new journal, where the first append fails and is taken back, the second one succeeds, and the
third one fails for good. -/
theorem appendEach_vouches_thrice :
    let files : FileSystem := { FileSystem.fresh with
      mishaps := [some ⟨3, .noSpace, .done⟩, none, some ⟨2, .noSpace, .failed⟩] }
    let opened := files.addFile ["work", "blocks"]
    let j : Journal := ⟨"blocks", .file 0, 0, false⟩
    let a : Block := { id := "a", payload := [1] }
    let b : Block := { id := "b", payload := [2] }
    let r := j.appendEach opened [[a], [a], [b]]
    openAt files "blocks" = (.ok j, opened) ∧
      r.results.map (·.isOk) = [false, true, false] ∧ r.journal.poisoned = true ∧
      ∃ base, opened.read "blocks" = .ok base ∧
        (∃ rest, r.files.read "blocks" = .ok (base ++ recordsOf [a] ++ rest)) ∧
        r.journal.committed = (base ++ recordsOf [a]).length ∧
        r.journal.appendEach r.files [[b]] =
          ⟨[.error (.poisoned "blocks")], r.journal, r.files⟩ := by
  intro files opened j a b r
  have hsound : files.Sound := sound_fresh
  have hopen : openAt files "blocks" = (.ok j, opened) := by rfl
  have hresults : r.results.map (·.isOk) = [false, true, false] := by decide +kernel
  have hpoisoned : r.journal.poisoned = true := by decide +kernel
  have hacknowledged : acknowledged [[a], [a], [b]] r.results = [a] := by decide +kernel
  obtain ⟨base, hbase, -, -, hcounted, ⟨rest, hread, -⟩, -, hrefused⟩ :=
    appendEach_vouches hsound hopen [[a], [a], [b]]
  rw [hacknowledged] at hcounted hread
  exact ⟨hopen, hresults, hpoisoned, base, hbase, ⟨rest, hread⟩, hcounted,
    hrefused hpoisoned [[b]]⟩

end BlockLedger.Journal
