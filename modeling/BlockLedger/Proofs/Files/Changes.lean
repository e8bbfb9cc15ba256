import BlockLedger.Proofs.Files.Lookup
import Mathlib.Data.List.GetD

/-!
# What changes among the files

Two kinds of changes are told apart. Making directories adds directories and nothing else
(`FileSystem.Deepens`). Writing touches one file: its bytes change, it may be a new one, and no
other file holds anything else than before (`FileSystem.Touches`).

A file that is written anew is found at its path with the bytes it has been given, and it is the one
that was found there before or a new one (`FileSystem.write_cases`). Who knows a file by its number
can then tell whether it has been touched.
-/

namespace BlockLedger.FileSystem

variable {fs fs' fs'' : FileSystem} {path : String}

/-! ### Finding files -/

/-- **A file is found** where a path leads to it, unless the path is that of a directory. -/
theorem find_eq_file_iff {n : Nat} :
    fs.find path = .ok (.file n) ↔
      Path.endsWithSlash path = false ∧ ∃ l, fs.resolve path = .ok (.item l (.file n)) := by
  rw [find]
  split
  · next heq => simp [heq]
  · next heq => simp [heq]
  · next heq => simp [heq]
  · next l i hne heq =>
    rw [heq]
    split_ifs with hslash
    · simp [hslash]
    · simp [hslash]

theorem Extends.find_file (h : fs.Extends fs') {n : Nat} (hfind : fs.find path = .ok (.file n)) :
    fs'.find path = .ok (.file n) := by
  obtain ⟨hslash, l, hl⟩ := find_eq_file_iff.1 hfind
  exact find_eq_file_iff.2 ⟨hslash, l, h.resolve_item hl⟩

theorem read_of_find {n : Nat} (h : fs.find path = .ok (.file n)) :
    fs.read path = .ok (fs.bytesOf (.file n)) := by
  rw [read, h]

theorem openFile_of_find {n : Nat} (h : fs.find path = .ok (.file n)) :
    fs.openFile path = .ok (.file n, fs) := by
  obtain ⟨hslash, l, hl⟩ := find_eq_file_iff.1 h
  rw [openFile, hl]
  simp only
  rw [if_neg (by rw [hslash]; exact Bool.false_ne_true)]

theorem Sound.lt_of_find (h : fs.Sound) {n : Nat} (hfind : fs.find path = .ok (.file n)) :
    n < fs.contents.length := by
  obtain ⟨-, l, hl⟩ := find_eq_file_iff.1 hfind
  exact h.lt_of_resolve hl

/-! ### One file -/

/-- **Nothing but one file has changed**, and that may be a new one. -/
structure Touches (n : Nat) (fs fs' : FileSystem) : Prop where
  leads : fs.Extends fs'
  mishaps_eq : fs'.mishaps = fs.mishaps
  others : ∀ m ≠ n, fs'.bytesOf (.file m) = fs.bytesOf (.file m)

theorem Touches.refl (n : Nat) (fs : FileSystem) : Touches n fs fs := ⟨.refl fs, rfl, fun _ _ => rfl⟩

theorem Touches.trans {n : Nat} (h : Touches n fs fs') (h' : Touches n fs' fs'') :
    Touches n fs fs'' where
  leads := h.leads.trans h'.leads
  mishaps_eq := h'.mishaps_eq.trans h.mishaps_eq
  others m hm := (h'.others m hm).trans (h.others m hm)

theorem touches_setBytes (fs : FileSystem) (n : Nat) (bytes : Bytes) :
    Touches n fs (fs.setBytes (.file n) bytes) where
  leads := extends_setBytes fs (.file n) bytes
  mishaps_eq := rfl
  others m hm := by
    rw [setBytes, bytesOf, bytesOf, List.getD_eq_getElem?_getD, List.getElem?_set_ne hm.symm,
      ← List.getD_eq_getElem?_getD]

/-- A new file is empty, and so it holds what was held under its number before. -/
theorem bytesOf_addFile (location : Location) (m : Nat) :
    (fs.addFile location).bytesOf (.file m) = fs.bytesOf (.file m) := by
  rw [addFile, bytesOf, bytesOf]
  by_cases hm : m < fs.contents.length
  -- a number that is not in use stands for no bytes
  · rw [List.getD_append _ _ _ _ hm]
  · have hle : fs.contents.length ≤ m := Nat.le_of_not_lt hm
    rw [List.getD_append_right _ _ _ _ hle, List.getD_eq_default fs.contents _ hle]
    cases m - fs.contents.length <;> rfl

theorem touches_addFile {location : Location} (hnone : fs.item? location = none) (n : Nat) :
    Touches n fs (fs.addFile location) where
  leads := (extends_addFile hnone).1
  mishaps_eq := rfl
  others m _ := bytesOf_addFile location m

/-- **A file that has been written anew** is found at its path with its new bytes, and no other file
has changed. It is a new one, or the one that was found there before. The device that is always full
takes nothing, and so only no bytes can be written to it. -/
theorem write_cases (hsound : fs.Sound) {bytes : Bytes} (h : fs.write path bytes = .ok fs') :
    (bytes = [] ∧ fs' = fs) ∨
      ∃ n, fs'.find path = .ok (.file n) ∧ fs'.bytesOf (.file n) = bytes ∧ Touches n fs fs' ∧
        (fs.find path = .ok (.file n) ∨ n = fs.contents.length) := by
  rw [write] at h
  split at h
  · cases h
  · next opened hopen =>
    split_ifs at h with hempty
    cases h
    obtain ⟨-, ⟨rfl, -⟩ | ⟨l, -, hnew, -⟩⟩ := openFile_cases hopen
    · exact .inl ⟨hempty, rfl⟩
    · cases hnew
  · next handle opened hnotfull hopen =>
    cases h
    obtain ⟨-, hslash, ⟨l, hplace⟩, hinside⟩ := openFile_eq_ok hsound hopen
    cases handle with
    | full => exact absurd rfl hnotfull
    | file n =>
      have hset : Touches n opened (opened.setBytes (.file n) bytes) :=
        touches_setBytes opened n bytes
      have hfind : (opened.setBytes (.file n) bytes).find path = .ok (.file n) :=
        find_eq_file_iff.2 ⟨hslash, l, hset.leads.resolve_item hplace⟩
      have hbytes : (opened.setBytes (.file n) bytes).bytesOf (.file n) = bytes := by
        refine bytesOf_setBytes hinside fun hfull => ?_
        cases hfull
      refine .inr ⟨n, hfind, hbytes, ?_⟩
      -- opening has found the file, or has added it
      obtain ⟨-, ⟨rfl, hfound⟩ | ⟨l, hvacant, hnew, rfl⟩⟩ := openFile_cases hopen
      · exact ⟨hset, .inl (find_eq_file_iff.2 ⟨hslash, hfound⟩)⟩
      · cases hnew
        exact ⟨(touches_addFile (item?_of_resolve_vacant hvacant) _).trans hset, .inr rfl⟩

theorem write_eq_ok (hsound : fs.Sound) {bytes : Bytes} (hbytes : bytes ≠ [])
    (h : fs.write path bytes = .ok fs') :
    ∃ n, fs'.find path = .ok (.file n) ∧ fs'.bytesOf (.file n) = bytes ∧ Touches n fs fs' ∧
      (fs.find path = .ok (.file n) ∨ n = fs.contents.length) :=
  (write_cases hsound h).resolve_left fun hnone => hbytes hnone.1

/-- A file that has been written is not one that is found elsewhere. -/
theorem Sound.ne_of_find_ne (h : fs.Sound) {other : String} {m n : Nat}
    (hwritten : fs.find path = .ok (.file m) ∨ m = fs.contents.length)
    (hother : fs.find other = .ok (.file n)) (hne : fs.find path ≠ fs.find other) : m ≠ n := by
  rcases hwritten with hfound | rfl
  · rintro rfl
    exact hne (hfound.trans hother.symm)
  · exact (Nat.ne_of_lt (h.lt_of_find hother)).symm

/-- One more item stands where it has been put. -/
theorem item?_of_items_cons {location other : Location} {i j : Item}
    (hitems : fs'.items = (location, i) :: fs.items) (hj : fs'.item? other = some j) :
    fs.item? other = some j ∨ (other = location ∧ j = i) := by
  -- the root is a directory whatever the items are
  by_cases hroot : other = []
  · rw [item?, if_pos hroot] at hj
    rw [item?, if_pos hroot]
    exact .inl hj
  rw [item?_of_ne_nil hroot, hitems, List.lookup_cons] at hj
  split at hj
  · next heq => exact .inr ⟨beq_iff_eq.1 heq, (Option.some.inj hj).symm⟩
  · rw [item?_of_ne_nil hroot]
    exact .inl hj

/-- A file that is written has been opened before, and nothing has been added since. -/
theorem exists_openFile_of_write {bytes : Bytes} (h : fs.write path bytes = .ok fs') :
    ∃ handle opened, fs.openFile path = .ok (handle, opened) ∧ fs'.items = opened.items := by
  rw [write] at h
  split at h
  · cases h
  · next opened hopen =>
    split_ifs at h
    cases h
    exact ⟨_, _, hopen, rfl⟩
  · next handle opened _ hopen =>
    cases h
    refine ⟨_, _, hopen, ?_⟩
    cases handle <;> rfl

/-- Writing a file adds at most that file. -/
theorem item?_of_write {bytes : Bytes} (h : fs.write path bytes = .ok fs') {l : Location} {i : Item}
    (hi : fs'.item? l = some i) : fs.item? l = some i ∨ fs.resolve path = .ok (.vacant l) := by
  obtain ⟨handle, opened, hopen, hitems⟩ := exists_openFile_of_write h
  rw [item?, hitems] at hi
  obtain ⟨-, ⟨rfl, -⟩ | ⟨l', hvacant, -, rfl⟩⟩ := openFile_cases hopen
  · exact .inl hi
  · have hadded : (fs.addFile l').items = (l', .file fs.contents.length) :: fs.items := rfl
    rcases item?_of_items_cons hadded hi with hold | ⟨rfl, -⟩
    · exact .inl hold
    · exact .inr hvacant

/-! ### Directories -/

/-- **Nothing but directories has been added.** -/
structure Deepens (fs fs' : FileSystem) : Prop where
  leads : fs.Extends fs'
  contents_eq : fs'.contents = fs.contents
  mishaps_eq : fs'.mishaps = fs.mishaps
  added : ∀ l i, fs'.item? l = some i → fs.item? l = some i ∨ i = .directory

theorem Deepens.refl (fs : FileSystem) : fs.Deepens fs := ⟨.refl fs, rfl, rfl, fun _ _ => .inl⟩

theorem Deepens.trans (h : fs.Deepens fs') (h' : fs'.Deepens fs'') : fs.Deepens fs'' where
  leads := h.leads.trans h'.leads
  contents_eq := h'.contents_eq.trans h.contents_eq
  mishaps_eq := h'.mishaps_eq.trans h.mishaps_eq
  added l i hi := by
    rcases h'.added l i hi with hi | rfl
    · exact h.added l i hi
    · exact .inr rfl

theorem Deepens.bytesOf_eq (h : fs.Deepens fs') (handle : Handle) :
    fs'.bytesOf handle = fs.bytesOf handle := by
  cases handle with
  | file n => rw [bytesOf, bytesOf, h.contents_eq]
  | full => rfl

theorem deepens_of_makeDirectory (h : fs.makeDirectory path = .ok fs') : fs.Deepens fs' := by
  rw [makeDirectory] at h
  split at h
  · cases h
  · cases h
  · next l hl =>
    cases h
    let made : FileSystem := { fs with items := (l, .directory) :: fs.items }
    have hitems : made.items = (l, .directory) :: fs.items := rfl
    refine ⟨(extends_of_items_cons (item?_of_resolve_vacant hl) hitems rfl).1, rfl, rfl,
      fun other i hi => ?_⟩
    exact (item?_of_items_cons hitems hi).imp_right And.right

/-- Whatever becomes of the directories that are to be made. -/
theorem deepens_makeDirectoriesAlong (fs : FileSystem) (paths : List String) :
    fs.Deepens (fs.makeDirectoriesAlong paths).2 := by
  induction paths with
  | nil => exact .refl fs
  | cons path parents ih =>
    rw [makeDirectoriesAlong]
    by_cases hempty : path = ""
    · rw [if_pos hempty]
      exact .refl fs
    rw [if_neg hempty]
    split
    · next made hmade => exact deepens_of_makeDirectory hmade
    · split
      · next partly hpartly =>
        rw [hpartly] at ih
        exact ih
      · next above habove =>
        rw [habove] at ih
        split
        · next made hmade => exact ih.trans (deepens_of_makeDirectory hmade)
        · exact ih
    · exact .refl fs

theorem deepens_makeDirectories (fs : FileSystem) (path : String) :
    fs.Deepens (fs.makeDirectories path).2 := deepens_makeDirectoriesAlong fs _

end BlockLedger.FileSystem
