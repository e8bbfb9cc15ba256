import BlockLedger.Proofs.Journal.Reopen

/-!
# A new journal

Opening a journal makes the directories that are missing and then its file. Where the path of a
journal leads to no file, and will lead to none whatever directories are made, opening makes a new,
empty one: the journal is settled, it holds no blocks, and no other file is touched
(`Journal.openAt_new`).

When opening fails half-way, that file may be there already, and its end may have been cut off
(`Journal.Readied`). Every other file is as it was (`Journal.bytesAt?_of_attemptOpen_error`).
-/

namespace BlockLedger.Journal

open FileSystem

variable {fs fs' : FileSystem} {j : Journal} {path : String}

/-- Preparing the directory of a journal does nothing else, even if it fails. -/
theorem deepens_prepare (mishap : Option Mishap) (fs : FileSystem) (path : String) :
    fs.Deepens (prepare mishap fs path).2 := by
  rw [prepare]
  split
  · exact .refl fs
  · next parent _ =>
    have hmade := deepens_makeDirectoriesWith mishap fs parent
    split_ifs
    · exact .refl fs
    · split
      · next heq =>
        rw [heq] at hmade
        exact hmade
      · next heq =>
        rw [heq] at hmade
        exact hmade

/-- An attempt to open a journal that nothing befalls is the plain operation. -/
theorem attemptOpen_of_calm (h : fs.mishaps = []) (path : String) :
    attemptOpen fs path = openAt fs path := by
  simp only [attemptOpen, takeMishap_of_calm h, openAt]

/-- There is nothing to be cut off from an empty file. -/
theorem trim_of_bytesOf_nil {handle : Handle} (h : fs.bytesOf handle = []) :
    trim fs handle = (0, fs) := by
  rw [trim, h]
  rfl

/-- **A journal whose file is not there** is opened as a new one. -/
theorem openAt_new (hsound : fs.Sound) (hopen : openAt fs path = (.ok j, fs'))
    (hnew : ∀ ready, fs.Deepens ready → ∀ l i, ready.resolve path = .ok (.item l i) →
      i = .directory) :
    (j.path = path ∧ j.Settled fs' ∧ j.load fs' = .ok []) ∧
      j.handle = .file fs.contents.length ∧ Touches fs.contents.length fs fs' ∧ fs'.Sound := by
  have hsettled := settled_of_openAt hsound hopen
  rw [openAt, openWith] at hopen
  split at hopen
  · cases hopen
  · next ready hready =>
    have hdeepens := deepens_prepare none fs path
    have hready' := (prepare_eq_ok hready).2 hsound
    rw [hready] at hdeepens
    split at hopen
    · cases hopen
    · next handle opened hopened =>
      obtain ⟨-, ⟨rfl, l, hl⟩ | ⟨l, hl, rfl, rfl⟩⟩ := openFile_cases hopened
      · -- the path leads to no file
        have hdirectory := hnew opened hdeepens l handle.item hl
        cases handle <;> cases hdirectory
      · have hnone : ready.item? l = none := item?_of_resolve_vacant hl
        have hempty : (ready.addFile l).bytesOf (.file ready.contents.length) = [] := by
          rw [bytesOf_addFile, bytesOf, List.getD_eq_default _ _ (Nat.le_refl _)]
        -- so there is nothing to be recovered
        rw [trim_of_bytesOf_nil hempty] at hopen
        cases hopen
        have hadded := touches_addFile hnone fs.contents.length
        refine ⟨⟨rfl, hsettled.2, ?_⟩, ?_, ?_, hready'.addFile l⟩
        · rw [hsettled.2.load_eq_ok_iff, hempty]
          rfl
        · rw [hdeepens.contents_eq]
        · exact
            { leads := hdeepens.leads.trans hadded.leads
              mishaps_eq := hdeepens.mishaps_eq
              others := fun m hm => by rw [hadded.others m hm, hdeepens.bytesOf_eq] }

/-! ### Openings that fail -/

/-- **The file of a journal has been made ready**: it stands at a location with the complete part of
what stood there before. If there was no file, this is an empty one. -/
def Readied (path : String) (fs fs' : FileSystem) (location : Location) : Prop :=
  ∃ m, fs'.find path = .ok (.file m) ∧ fs'.item? location = some (.file m) ∧
    fs'.bytesAt? location = some (completePart ((fs.bytesAt? location).getD []))

/-- The file of a journal is cut back to what is complete, and no other file changes. -/
theorem bytesAt?_trim {handle : Handle} (hinside : ∀ n, handle = .file n → n < fs.contents.length)
    (location : Location) :
    (trim fs handle).2.bytesAt? location = fs.bytesAt? location ∨
      fs.item? location = some handle.item ∧
        (trim fs handle).2.bytesAt? location = (fs.bytesAt? location).map completePart := by
  obtain ⟨hleads, -, hbytes, -⟩ := trim_spec hinside
  cases handle with
  | full =>
    rw [trim_of_bytesOf_nil rfl]
    exact .inl rfl
  | file n =>
    by_cases hitem : fs.item? location = some (.file n)
    · refine .inr ⟨hitem, ?_⟩
      rw [bytesAt?_of_item hitem, bytesAt?_of_item (hleads.item hitem), hbytes]
      rfl
    · left
      rw [trim]
      simp only
      split_ifs
      · exact bytesAt?_setBytes_of_ne hitem
      · rfl

/-- **Once the file of a journal has been opened**, every other one is as it was, whether its end
has been cut off by then or not. -/
theorem readied_of_openFile {ready opened : FileSystem} {handle : Handle} {location : Location}
    (hsound : ready.Sound) (hopened : ready.openFile path = .ok (handle, opened))
    (hleads : opened.Extends fs')
    (hcut : fs'.bytesAt? location = opened.bytesAt? location ∨
      opened.item? location = some handle.item ∧
        fs'.bytesAt? location = (opened.bytesAt? location).map completePart) :
    fs'.bytesAt? location = ready.bytesAt? location ∨ Readied path ready fs' location := by
  obtain ⟨-, hslash, ⟨l, hplace⟩, -⟩ := openFile_eq_ok hsound hopened
  cases handle with
  | full =>
    -- the device that is always full stays as it is
    obtain ⟨-, ⟨rfl, -⟩ | ⟨l, -, hnew, -⟩⟩ := openFile_cases hopened
    · rcases hcut with hsame | ⟨hitem, hmap⟩
      · exact .inl hsame
      · left
        rw [hmap, bytesAt?, hitem]
        rfl
    · cases hnew
  | file m =>
    have hfind : fs'.find path = .ok (.file m) :=
      find_eq_file_iff.2 ⟨hslash, l, hleads.resolve_item hplace⟩
    rcases bytesAt?_of_openFile hopened location with hold | ⟨hnew, hnone, hempty⟩
    · rcases hcut with hsame | ⟨hitem, hmap⟩
      · exact .inl (hsame.trans hold)
      · right
        rw [bytesAt?_of_item hitem] at hold hmap
        refine ⟨m, hfind, hleads.item hitem, ?_⟩
        rw [hmap, ← hold]
        rfl
    · -- a new file is empty, and stays so
      right
      refine ⟨m, hfind, hleads.item hnew, ?_⟩
      rw [hnone]
      rcases hcut with hsame | ⟨-, hmap⟩
      · rw [hsame, hempty]
        rfl
      · rw [hmap, hempty]
        rfl

/-- **All that an opening that fails can do.** It has made directories at most, or something has
befallen it once the file was open, before its end was cut off or behind that. -/
theorem openWith_eq_error {making opening : Option Mishap} {e : JournalFault}
    (h : openWith making opening fs path = (.error e, fs')) :
    fs.Deepens fs' ∨
      ∃ m ready handle opened, opening = some m ∧ e = .files path m.cause ∧
        prepare making fs path = (.ok (), ready) ∧ ready.openFile path = .ok (handle, opened) ∧
        (fs' = opened ∨ fs' = (trim opened handle).2) := by
  have hdeepens := deepens_prepare making fs path
  rw [openWith] at h
  split at h
  · next partly hpartly =>
    rw [hpartly] at hdeepens
    cases h
    exact .inl hdeepens
  · next ready hready =>
    rw [hready] at hdeepens
    split at h
    · cases h
      exact .inl hdeepens
    · next handle opened hopened =>
      cases opening with
      | none => cases h
      | some m =>
        -- how far it has got by then
        cases hundo : m.undo with
        | done =>
          simp only [hundo] at h
          cases h
          exact .inl hdeepens
        | unsettled =>
          simp only [hundo] at h
          cases h
          exact .inr ⟨m, ready, handle, opened, rfl, rfl, hready, hopened, .inr rfl⟩
        | failed =>
          simp only [hundo] at h
          cases h
          exact .inr ⟨m, ready, handle, _, rfl, rfl, hready, hopened, .inl rfl⟩

/-- **An opening that fails** leaves every file as it was, but for the journal's own if something has
befallen opening that. -/
theorem bytesAt?_of_openWith_error {making opening : Option Mishap} {e : JournalFault}
    (hsound : fs.Sound) (h : openWith making opening fs path = (.error e, fs')) :
    fs.Extends fs' ∧ ∀ location, fs'.bytesAt? location = fs.bytesAt? location ∨
      ∃ m, opening = some m ∧ e = .files path m.cause ∧ Readied path fs fs' location := by
  rcases openWith_eq_error h with
    hdeepens | ⟨m, ready, handle, opened, hm, he, hready, hopened, hfiles⟩
  · exact ⟨hdeepens.leads, fun location => .inl (hdeepens.bytesAt?_eq location)⟩
  have hdeepens := deepens_prepare making fs path
  rw [hready] at hdeepens
  have hreadySound := (prepare_eq_ok hready).2 hsound
  obtain ⟨hextends, -, -, hinside⟩ := openFile_eq_ok hreadySound hopened
  -- in either case the file that is open holds what it held, or the complete part of that
  have hcut : opened.Extends fs' ∧ ∀ location,
      fs'.bytesAt? location = opened.bytesAt? location ∨
        opened.item? location = some handle.item ∧
          fs'.bytesAt? location = (opened.bytesAt? location).map completePart := by
    rcases hfiles with rfl | rfl
    · exact ⟨.refl fs', fun _ => .inl rfl⟩
    · exact ⟨(trim_spec hinside).1, bytesAt?_trim hinside⟩
  refine ⟨hdeepens.leads.trans (hextends.trans hcut.1), fun location => ?_⟩
  have hor := readied_of_openFile hreadySound hopened hcut.1 (hcut.2 location)
  rw [Readied, hdeepens.bytesAt?_eq] at hor
  exact hor.imp_right fun hjournal => ⟨m, hm, he, hjournal⟩

/-- **An attempt to open a journal** that fails leaves every file as it was, but for the journal's own
if something that was to befall an attempt has befallen this one. -/
theorem bytesAt?_of_attemptOpen_error {e : JournalFault} (hsound : fs.Sound)
    (h : attemptOpen fs path = (.error e, fs')) :
    fs.Extends fs' ∧ ∀ location, fs'.bytesAt? location = fs.bytesAt? location ∨
      ∃ m, some m ∈ fs.mishaps ∧ e = .files path m.cause ∧ Readied path fs fs' location := by
  -- two entries are taken from the list, one for the directories and one for the file
  have halike : fs.Alike fs.takeMishap.2.takeMishap.2 :=
    (alike_takeMishap fs).trans (alike_takeMishap _)
  obtain ⟨hleads, hopened⟩ := bytesAt?_of_openWith_error (halike.sound hsound) h
  refine ⟨halike.leads.trans hleads, fun location => ?_⟩
  have hor := hopened location
  rw [Readied, halike.bytesAt?_eq] at hor
  refine hor.imp_right fun hready => hready.imp fun m => And.imp_left fun hm => ?_
  exact (mishaps_takeMishap_suffix fs).mem (mem_mishaps_of_takeMishap hm)

end BlockLedger.Journal
