import BlockLedger.Proofs.Journal.Append
import BlockLedger.Proofs.Journal.Records
import Mathlib.Tactic.SplitIfs

/-!
# Opening a journal again

A journal that is open and has no failed append behind it is settled (`Journal.Settled`): its path
leads to its file, the file is complete and as long as the journal says. Opening makes a journal
settled (`Journal.settled_of_openAt`), and an append that succeeds leaves it so
(`Journal.Settled.append`).

When a journal is opened once more, its directory and its file are there already, and all that is
left to be done is to cut off what is not complete (`Journal.Located.openAt_eq`). For a settled
journal this is nothing, and the journal is the same one (`Journal.Settled.openAt_eq`). What is then
read are the blocks that were read before, and those that have been appended since.
-/

namespace BlockLedger.Journal

open FileSystem

/-- **A journal is settled** if opening it would change nothing. -/
structure Settled (j : Journal) (fs : FileSystem) : Prop where
  directory : ∀ parent, Path.parent? j.path = some parent → parent ≠ "" →
    ∃ l, fs.resolve parent = .ok (.item l .directory)
  slash : Path.endsWithSlash j.path = false
  place : ∃ l, fs.resolve j.path = .ok (.item l j.handle.item)
  inside : ∀ n, j.handle = .file n → n < fs.contents.length
  complete : Complete (fs.bytesOf j.handle)
  committed : j.committed = (fs.bytesOf j.handle).length
  clean : j.poisoned = false

variable {fs fs' : FileSystem} {j : Journal} {kept : Bytes}

theorem Settled.located (h : j.Settled fs) : j.Located fs :=
  ⟨h.directory, h.slash, h.place, h.inside⟩

/-- A settled journal vouches for all that is in its file. -/
theorem Settled.vouches (h : j.Settled fs) : j.Vouches fs (fs.bytesOf j.handle) where
  toLocated := h.located
  front := List.prefix_rfl
  counted := h.committed
  exact _ := rfl

/-- A journal stays settled as long as nothing is taken away and its file holds the same bytes. -/
theorem Settled.of_extends (h : j.Settled fs) (hextends : fs.Extends fs')
    (hinside : ∀ n, j.handle = .file n → n < fs'.contents.length)
    (hbytes : fs'.bytesOf j.handle = fs.bytesOf j.handle) : j.Settled fs' where
  directory parent hparent hne := by
    obtain ⟨l, hl⟩ := h.directory parent hparent hne
    exact ⟨l, hextends.resolve_item hl⟩
  slash := h.slash
  place := by
    obtain ⟨l, hl⟩ := h.place
    exact ⟨l, hextends.resolve_item hl⟩
  inside := hinside
  complete := by
    rw [hbytes]
    exact h.complete
  committed := by
    rw [hbytes]
    exact h.committed
  clean := h.clean

/-- Where a journal vouches for complete records and is not poisoned, it is settled. -/
theorem Vouches.settled (h : j.Vouches fs kept) (hcomplete : Complete kept)
    (hclean : j.poisoned = false) : j.Settled fs where
  directory := h.directory
  slash := h.slash
  place := h.place
  inside := h.inside
  complete := by
    rw [h.exact hclean]
    exact hcomplete
  committed := by rw [h.exact hclean, h.counted]
  clean := hclean

/-! ### Opening -/

/-- The directory of a journal is there once it has been prepared. -/
theorem prepare_eq_ok {path : String} {mishap : Option Mishap}
    (h : prepare mishap fs path = (.ok (), fs')) :
    (∀ parent, Path.parent? path = some parent → parent ≠ "" →
        ∃ l, fs'.resolve parent = .ok (.item l .directory)) ∧
      (fs.Sound → fs'.Sound) := by
  rw [prepare] at h
  split at h
  · next hnone =>
    cases h
    refine ⟨fun parent hparent => ?_, id⟩
    rw [hnone] at hparent
    cases hparent
  · next parent hsome =>
    split_ifs at h with hempty
    · cases h
      refine ⟨fun other hother hne => ?_, id⟩
      rw [hsome] at hother
      cases hother
      exact absurd hempty hne
    · split at h
      · next made hmade =>
        cases h
        refine ⟨fun other hother hne => ?_, fun hsound => ?_⟩
        · rw [hsome] at hother
          cases hother
          exact makeDirectories_eq_ok hne (makeDirectoriesWith_eq_ok hmade)
        · have hall := hsound.makeDirectoriesWith mishap parent
          rw [hmade] at hall
          exact hall
      · cases h

/-- The file system with an open file cut back. -/
theorem trim_spec {handle : Handle} (hinside : ∀ n, handle = .file n → n < fs.contents.length) :
    fs.Extends (trim fs handle).2 ∧ (trim fs handle).2.contents.length = fs.contents.length ∧
      (trim fs handle).2.bytesOf handle = completePart (fs.bytesOf handle) ∧
      (trim fs handle).1 = (completePart (fs.bytesOf handle)).length := by
  have htake := take_length_completePart (fs.bytesOf handle)
  have hle : (completePart (fs.bytesOf handle)).length ≤ (fs.bytesOf handle).length := by
    rw [← htake, List.length_take]
    exact Nat.min_le_right _ _
  rw [trim]
  simp only
  split_ifs with hlt
  · have hbytes : (fs.bytesOf handle).take (completePart (fs.bytesOf handle)).length ++
        List.replicate ((completePart (fs.bytesOf handle)).length - (fs.bytesOf handle).length) 0 =
        completePart (fs.bytesOf handle) := by
      rw [htake, Nat.sub_eq_zero_of_le hle]
      exact List.append_nil _
    rw [resize, hbytes]
    refine ⟨extends_setBytes _ _ _, length_contents_setBytes _ _ _, ?_, trivial⟩
    refine bytesOf_setBytes hinside fun hfull => ?_
    rw [hfull]
    rfl
  · -- all of it is complete
    have hall : completePart (fs.bytesOf handle) = fs.bytesOf handle := by
      rw [← htake, List.take_of_length_le (Nat.le_of_not_lt hlt)]
    exact ⟨.refl fs, rfl, hall.symm, trivial⟩

/-- **A journal that has been opened** is settled. -/
theorem settled_of_openAt {path : String} (hsound : fs.Sound) (h : openAt fs path = (.ok j, fs')) :
    j.path = path ∧ j.Settled fs' := by
  rw [openAt, openWith] at h
  split at h
  · cases h
  · next ready hready =>
    obtain ⟨hdirectory, hkeeps⟩ := prepare_eq_ok hready
    split at h
    · cases h
    · next handle opened hopened =>
      obtain ⟨hextends, hslash, ⟨l, hplace⟩, hinside⟩ := openFile_eq_ok (hkeeps hsound) hopened
      obtain ⟨htrimmed, hlength, hbytes, hcommitted⟩ := trim_spec hinside
      generalize trim opened handle = trimmed at h htrimmed hlength hbytes hcommitted
      obtain ⟨committed, files⟩ := trimmed
      cases h
      refine ⟨rfl, ?_⟩
      exact
        { directory := fun parent hparent hne => by
            obtain ⟨l, hl⟩ := hdirectory parent hparent hne
            exact ⟨l, (hextends.trans htrimmed).resolve_item hl⟩
          slash := hslash
          place := ⟨l, htrimmed.resolve_item hplace⟩
          inside := fun n hn => by
            rw [hlength]
            exact hinside n hn
          complete := by
            rw [hbytes]
            exact complete_completePart _
          committed := by
            rw [hbytes]
            exact hcommitted
          clean := rfl }

/-- The file that is opened at the path of a journal is its own. -/
theorem Located.openFile_eq (h : j.Located fs) : fs.openFile j.path = .ok (j.handle, fs) := by
  obtain ⟨l, hl⟩ := h.place
  rw [openFile, hl]
  simp only
  rw [if_neg (by rw [h.slash]; exact Bool.false_ne_true)]
  cases j.handle <;> rfl

/-- **A journal that lies at its path is opened again** by cutting off what is not complete. No
directory and no file is made. -/
theorem Located.openAt_eq (h : j.Located fs) :
    openAt fs j.path =
      (.ok ⟨j.path, j.handle, (trim fs j.handle).1, false⟩, (trim fs j.handle).2) := by
  have hprepare : prepare none fs j.path = (.ok (), fs) := by
    rw [prepare]
    split
    · rfl
    · next parent hparent =>
      split_ifs with hempty
      · rfl
      · obtain ⟨l, hl⟩ := h.directory parent hparent hempty
        rw [makeDirectoriesWith, makeDirectories_of_resolve hl]
  rw [openAt, openWith, hprepare]
  simp only
  rw [h.openFile_eq]

/-- **A settled journal is opened again** as it is, and nothing changes among the files. -/
theorem Settled.openAt_eq (h : j.Settled fs) : openAt fs j.path = (.ok j, fs) := by
  have htrim : trim fs j.handle = (j.committed, fs) := by
    rw [trim, h.complete.completePart_eq, h.committed, if_neg (Nat.lt_irrefl _)]
  rw [h.located.openAt_eq, htrim, ← h.clean]

/-- Two settled journals are the same if they lie at one path and their files hold the same. -/
theorem Settled.eq_of_bytesOf (h : j.Settled fs) {j' : Journal} (h' : j'.Settled fs')
    (hpath : j'.path = j.path) (hhandle : j'.handle = j.handle)
    (hbytes : fs'.bytesOf j.handle = fs.bytesOf j.handle) : j' = j := by
  have hcommitted : j'.committed = j.committed := by
    rw [h'.committed, h.committed, hhandle, hbytes]
  have hpoisoned : j'.poisoned = j.poisoned := by rw [h'.clean, h.clean]
  cases j
  cases j'
  simp_all

/-! ### Reading and appending -/

/-- The blocks in a settled journal are those in its file. -/
theorem Settled.load_eq_ok_iff (h : j.Settled fs) {blocks : List Block} :
    j.load fs = .ok blocks ↔ readRecords (fs.bytesOf j.handle) = .ok blocks := by
  obtain ⟨l, hl⟩ := h.place
  rw [load, readBlocks, read_of_resolve h.slash hl]
  simp only
  split
  · next heq => simp [heq]
  · next heq => simp [heq]
  · next heq => rw [heq, Except.ok.injEq, Except.ok.injEq]

/-- **An append that succeeds** puts the records behind those in the file, and leaves the journal
settled. -/
theorem Settled.append (h : j.Settled fs) {blocks : List Block}
    (hok : (j.append fs blocks).result = .ok ()) :
    (j.append fs blocks).journal.path = j.path ∧
      (j.append fs blocks).journal.Settled (j.append fs blocks).files ∧
      (j.append fs blocks).files.bytesOf (j.append fs blocks).journal.handle =
        fs.bytesOf j.handle ++ recordsOf blocks := by
  obtain ⟨hpath, -⟩ := j.append_path fs blocks
  have hvouches := h.vouches.append blocks
  have hclean := append_clean_of_ok hok
  rw [hok] at hvouches
  exact ⟨hpath, hvouches.settled (h.complete.append (complete_recordsOf blocks)) hclean,
    hvouches.exact hclean⟩

/-- **The blocks that have been appended** are read behind those that were read before. -/
theorem Settled.load_append (h : j.Settled fs) {old new : List Block} (hload : j.load fs = .ok old)
    (hnew : ∀ b ∈ new, b.id ≠ "") (hok : (j.append fs new).result = .ok ()) :
    (j.append fs new).journal.load (j.append fs new).files = .ok (old ++ new) := by
  obtain ⟨-, hsettled, hbytes⟩ := h.append hok
  rw [hsettled.load_eq_ok_iff, hbytes]
  exact readRecords_append h.complete (h.load_eq_ok_iff.1 hload) hnew

end BlockLedger.Journal
