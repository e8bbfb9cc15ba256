import BlockLedger.Journal
import BlockLedger.Proofs.Files.Attempts

/-!
# One append

An append can fail before, between or behind its bytes, and taking them back can fail as well. The
file system carries these failures (`Mishap`), so a statement about all file systems covers all of
them.

What an append can do is said once (`Journal.append_cases`): it is refused, it is written down, or
it fails and is rolled back as far as this goes. In any case the journal stays where it is
(`Journal.Located`).

The invariant of a journal is what it vouches for (`Journal.Vouches`): its file starts with certain
bytes, it has counted them, and there are no others in the file unless it is poisoned. An append
that succeeds adds its records to those bytes, and one that fails adds nothing
(`Journal.Vouches.append`).
-/

namespace BlockLedger

/-- **Nothing but the bytes of a file has changed**: paths lead where they led, and the same files
have contents. -/
structure FileSystem.Rewrites (fs fs' : FileSystem) : Prop where
  leads : fs.Extends fs'
  length_eq : fs'.contents.length = fs.contents.length

namespace FileSystem

variable {fs fs' fs'' : FileSystem}

theorem Rewrites.refl (fs : FileSystem) : fs.Rewrites fs := ⟨.refl fs, rfl⟩

theorem Rewrites.trans (h : fs.Rewrites fs') (h' : fs'.Rewrites fs'') : fs.Rewrites fs'' :=
  ⟨h.leads.trans h'.leads, h'.length_eq.trans h.length_eq⟩

theorem rewrites_setBytes (fs : FileSystem) (handle : Handle) (bytes : Bytes) :
    fs.Rewrites (fs.setBytes handle bytes) :=
  ⟨extends_setBytes fs handle bytes, length_contents_setBytes fs handle bytes⟩

/-- Looking up what befalls an append leaves all items and all contents as they are. -/
theorem nextMishap_keeps (fs : FileSystem) (handle : Handle) (size : Nat) :
    fs.Rewrites (fs.nextMishap handle size).2 ∧
      (fs.nextMishap handle size).2.bytesOf handle = fs.bytesOf handle := by
  cases handle with
  | full => exact ⟨.refl fs, rfl⟩
  | file n =>
    have halike := fs.alike_takeMishap
    exact ⟨⟨halike.leads, congrArg List.length halike.contents_eq⟩, halike.bytesOf_eq _⟩

end FileSystem

namespace Journal

open FileSystem

variable {fs fs' : FileSystem} {j j' : Journal} {kept : Bytes}

/-! ### Where a journal lies -/

/-- **A journal lies at its path**: the directory is there, and the path leads to the file that is
open. -/
structure Located (j : Journal) (fs : FileSystem) : Prop where
  directory : ∀ parent, Path.parent? j.path = some parent → parent ≠ "" →
    ∃ l, fs.resolve parent = .ok (.item l .directory)
  slash : Path.endsWithSlash j.path = false
  place : ∃ l, fs.resolve j.path = .ok (.item l j.handle.item)
  inside : ∀ n, j.handle = .file n → n < fs.contents.length

/-- A journal stays where it is when bytes are written. -/
theorem Located.of_rewrites (h : j.Located fs) (hrewrites : fs.Rewrites fs')
    (hpath : j'.path = j.path) (hhandle : j'.handle = j.handle) : j'.Located fs' where
  directory := by
    intro parent hparent hne
    rw [hpath] at hparent
    obtain ⟨l, hl⟩ := h.directory parent hparent hne
    exact ⟨l, hrewrites.leads.resolve_item hl⟩
  slash := by
    rw [hpath]
    exact h.slash
  place := by
    obtain ⟨l, hl⟩ := h.place
    rw [hpath, hhandle]
    exact ⟨l, hrewrites.leads.resolve_item hl⟩
  inside := by
    rw [hhandle, hrewrites.length_eq]
    exact h.inside

/-- The bytes of the open file are read at the path. -/
theorem Located.read_eq (h : j.Located fs) : fs.read j.path = .ok (fs.bytesOf j.handle) := by
  obtain ⟨l, hl⟩ := h.place
  exact read_of_resolve h.slash hl

/-! ### What an append can do -/

theorem append_of_poisoned (h : j.poisoned = true) (fs : FileSystem) (blocks : List Block) :
    j.append fs blocks = ⟨.error (.poisoned j.path), j, fs⟩ := by
  rw [Journal.append, if_pos h]

theorem append_of_mishap (h : j.poisoned = false) {blocks : List Block} {m : Mishap}
    {later : FileSystem}
    (hmishap : fs.nextMishap j.handle (recordsOf blocks).length = (some m, later)) :
    let written := later.extend j.handle ((recordsOf blocks).take m.written)
    j.append fs blocks = ⟨.error (.files j.path m.cause), (rollBack written j m.undo).1,
      (rollBack written j m.undo).2⟩ := by
  rw [Journal.append, if_neg (by rw [h]; exact Bool.false_ne_true)]
  simp only [hmishap]

theorem append_of_no_mishap (h : j.poisoned = false) {blocks : List Block} {later : FileSystem}
    (hmishap : fs.nextMishap j.handle (recordsOf blocks).length = (none, later)) :
    j.append fs blocks =
      ⟨.ok (), { j with committed := j.committed + (recordsOf blocks).length },
        later.extend j.handle (recordsOf blocks)⟩ := by
  rw [Journal.append, if_neg (by rw [h]; exact Bool.false_ne_true)]
  simp only [hmishap]

/-- **All that an append can do**: it is refused because the journal is poisoned, it is written
down, or some of its bytes are written and then taken back as far as this goes. -/
theorem append_cases (j : Journal) (fs : FileSystem) (blocks : List Block) :
    (j.poisoned = true ∧ j.append fs blocks = ⟨.error (.poisoned j.path), j, fs⟩) ∨
      (j.poisoned = false ∧
        ∃ later, fs.nextMishap j.handle (recordsOf blocks).length = (none, later) ∧
          j.append fs blocks =
            ⟨.ok (), { j with committed := j.committed + (recordsOf blocks).length },
              later.extend j.handle (recordsOf blocks)⟩) ∨
      (j.poisoned = false ∧
        ∃ m later, fs.nextMishap j.handle (recordsOf blocks).length = (some m, later) ∧
          let written := later.extend j.handle ((recordsOf blocks).take m.written)
          j.append fs blocks = ⟨.error (.files j.path m.cause), (rollBack written j m.undo).1,
            (rollBack written j m.undo).2⟩) := by
  cases hpoisoned : j.poisoned with
  | true => exact .inl ⟨rfl, append_of_poisoned hpoisoned fs blocks⟩
  | false =>
    cases hmishap : fs.nextMishap j.handle (recordsOf blocks).length with
    | mk mishap later =>
      cases mishap with
      | none =>
        have happend := append_of_no_mishap hpoisoned hmishap
        rw [hpoisoned] at happend
        exact .inr (.inl ⟨rfl, later, rfl, happend⟩)
      | some m => exact .inr (.inr ⟨rfl, m, later, rfl, append_of_mishap hpoisoned hmishap⟩)

/-! ### What a journal vouches for -/

/-- **A journal vouches for some bytes**: its file starts with them, it has counted them, and there
is nothing else in the file unless the journal is poisoned. -/
structure Vouches (j : Journal) (fs : FileSystem) (kept : Bytes) : Prop extends j.Located fs where
  front : kept <+: fs.bytesOf j.handle
  counted : j.committed = kept.length
  exact : j.poisoned = false → fs.bytesOf j.handle = kept

/-- What is read at the path is what the journal vouches for, and perhaps more. -/
theorem Vouches.exists_read_eq (h : j.Vouches fs kept) :
    ∃ rest, fs.read j.path = .ok (kept ++ rest) ∧ (j.poisoned = false → rest = []) := by
  obtain ⟨rest, hrest⟩ := h.front
  refine ⟨rest, by rw [h.read_eq, hrest], fun hclean => ?_⟩
  rw [h.exact hclean] at hrest
  exact List.append_right_eq_self.1 hrest

/-- The file after some bytes of an append have been written. -/
theorem Vouches.bytesOf_written (h : j.Vouches fs kept) (hclean : j.poisoned = false) {size : Nat}
    {m : Option Mishap} {later : FileSystem} (hmishap : fs.nextMishap j.handle size = (m, later))
    {bytes : Bytes} (hfull : j.handle = .full → bytes = []) :
    fs.Rewrites (later.extend j.handle bytes) ∧
      (later.extend j.handle bytes).bytesOf j.handle = kept ++ bytes := by
  obtain ⟨hrewrites, hsame⟩ := fs.nextMishap_keeps j.handle size
  rw [hmishap] at hrewrites hsame
  have hinside : ∀ n, j.handle = .file n → n < later.contents.length := by
    rw [hrewrites.length_eq]
    exact h.inside
  refine ⟨hrewrites.trans (rewrites_setBytes _ _ _), ?_⟩
  rw [bytesOf_extend hinside hfull, hsame, h.exact hclean]

/-- A failed append takes back what it has written, and otherwise poisons the journal. -/
theorem Vouches.rollBack (h : j.Vouches fs kept) {written : FileSystem} {bytes : Bytes}
    (hrewrites : fs.Rewrites written) (hwritten : written.bytesOf j.handle = kept ++ bytes)
    (undo : Undo) :
    (rollBack written j undo).1.Vouches (rollBack written j undo).2 kept := by
  have hlocated : j.Located written := h.toLocated.of_rewrites hrewrites rfl rfl
  have hcut : (written.resize j.handle j.committed).bytesOf j.handle = kept := by
    rw [h.counted]
    exact bytesOf_resize hlocated.inside hwritten
  have hfront : kept <+: (written.resize j.handle j.committed).bytesOf j.handle :=
    ⟨[], (List.append_nil kept).trans hcut.symm⟩
  have hresized : j.Located (written.resize j.handle j.committed) :=
    hlocated.of_rewrites (rewrites_setBytes _ _ _) rfl rfl
  cases undo with
  | done => exact ⟨hresized, hfront, h.counted, fun _ => hcut⟩
  | unsettled =>
    refine ⟨hresized.of_rewrites (.refl _) rfl rfl, hfront, h.counted, ?_⟩
    intro hclean
    cases hclean
  | failed =>
    refine ⟨hlocated.of_rewrites (.refl _) rfl rfl, ⟨bytes, hwritten.symm⟩, h.counted, ?_⟩
    intro hclean
    cases hclean

/-- **One append.** If it succeeds the journal vouches for its records as well, and if it fails for
the same bytes as before. -/
theorem Vouches.append (h : j.Vouches fs kept) (blocks : List Block) :
    (j.append fs blocks).journal.Vouches (j.append fs blocks).files
      (kept ++ if (j.append fs blocks).result.isOk then recordsOf blocks else []) := by
  rcases j.append_cases fs blocks with ⟨-, heq⟩ | ⟨hclean, later, hmishap, heq⟩ |
    ⟨hclean, m, later, hmishap, heq⟩
  · rw [heq]
    change j.Vouches fs (kept ++ [])
    rw [List.append_nil]
    exact h
  · -- the device that is always full has a mishap in store for every append
    have hfull : j.handle = .full → recordsOf blocks = [] := by
      intro hfull
      rw [hfull] at hmishap
      cases hmishap
    obtain ⟨hrewrites, hbytes⟩ := h.bytesOf_written hclean hmishap hfull
    rw [heq]
    change Vouches _ _ (kept ++ recordsOf blocks)
    refine ⟨h.toLocated.of_rewrites hrewrites rfl rfl, ⟨[], ?_⟩, ?_, fun _ => hbytes⟩
    · rw [List.append_nil, hbytes]
    · rw [List.length_append, ← h.counted]
  · have hfull : j.handle = .full → (recordsOf blocks).take m.written = [] := by
      intro hfull
      rw [hfull] at hmishap
      cases hmishap
      exact List.take_zero
    obtain ⟨hrewrites, hbytes⟩ := h.bytesOf_written hclean hmishap hfull
    rw [heq]
    change Vouches _ _ (kept ++ [])
    rw [List.append_nil]
    exact h.rollBack hrewrites hbytes m.undo

/-- The path and the open file of a journal never change. -/
theorem append_path (j : Journal) (fs : FileSystem) (blocks : List Block) :
    (j.append fs blocks).journal.path = j.path ∧
      (j.append fs blocks).journal.handle = j.handle := by
  rcases j.append_cases fs blocks with ⟨-, heq⟩ | ⟨-, later, -, heq⟩ | ⟨-, m, later, -, heq⟩
  · rw [heq]
    exact ⟨rfl, rfl⟩
  · rw [heq]
    exact ⟨rfl, rfl⟩
  · rw [heq]
    cases m.undo <;> exact ⟨rfl, rfl⟩

/-- An append that succeeds has been made on a journal that is not poisoned, and leaves it so. -/
theorem append_clean_of_ok {blocks : List Block} (hok : (j.append fs blocks).result = .ok ()) :
    (j.append fs blocks).journal.poisoned = false := by
  rcases j.append_cases fs blocks with ⟨-, heq⟩ | ⟨hclean, later, -, heq⟩ | ⟨-, m, later, -, heq⟩
  · rw [heq] at hok
    cases hok
  · rw [heq]
    exact hclean
  · rw [heq] at hok
    cases hok

/-- **An append succeeds** unless the journal is poisoned or the append is to fail. -/
theorem append_ok_iff (j : Journal) (fs : FileSystem) (blocks : List Block) :
    (j.append fs blocks).result = .ok () ↔
      j.poisoned = false ∧ (fs.nextMishap j.handle (recordsOf blocks).length).1 = none := by
  rcases j.append_cases fs blocks with ⟨hpoisoned, heq⟩ | ⟨hclean, later, hmishap, heq⟩ |
    ⟨-, m, later, hmishap, heq⟩
  · rw [heq, hpoisoned]
    simp
  · rw [heq, hmishap]
    exact ⟨fun _ => ⟨hclean, rfl⟩, fun _ => rfl⟩
  · rw [heq, hmishap]
    simp

/-- Where no append is to fail, one succeeds unless the journal is poisoned or its device has no
room. -/
theorem append_ok_iff_of_no_mishaps (j : Journal) (fs : FileSystem) (blocks : List Block) :
    (j.append { fs with mishaps := [] } blocks).result = .ok () ↔
      j.poisoned = false ∧ j.handle ≠ .full := by
  rw [append_ok_iff]
  -- there are no mishaps in store for a file
  cases j.handle <;> simp [nextMishap, takeMishap]

/-- **An append that fails and is taken back** leaves the journal and the bytes of its file as they
were. -/
theorem Vouches.append_failed (h : j.Vouches fs kept) {blocks : List Block}
    (hfailed : (j.append fs blocks).result.isOk = false)
    (hclean : (j.append fs blocks).journal.poisoned = false) :
    (j.append fs blocks).journal = j ∧
      (j.append fs blocks).files.bytesOf j.handle = fs.bytesOf j.handle := by
  have hafter := h.append blocks
  rw [hfailed, if_neg Bool.false_ne_true, List.append_nil] at hafter
  have hsame : (j.append fs blocks).journal = j ∧ j.poisoned = false := by
    rcases j.append_cases fs blocks with ⟨hpoisoned, heq⟩ | ⟨-, later, -, heq⟩ |
      ⟨hfirst, m, later, -, heq⟩
    · rw [heq] at hclean
      rw [hpoisoned] at hclean
      cases hclean
    · rw [heq] at hfailed
      cases hfailed
    · rw [heq] at hclean ⊢
      refine ⟨?_, hfirst⟩
      -- a journal that is not poisoned has been rolled back
      generalize m.undo = undo at hclean ⊢
      cases undo with
      | done => rfl
      | unsettled => cases hclean
      | failed => cases hclean
  obtain ⟨hjournal, hbefore⟩ := hsame
  have hbytes := hafter.exact hclean
  rw [hjournal] at hbytes
  exact ⟨hjournal, by rw [hbytes, h.exact hbefore]⟩

end Journal

end BlockLedger
