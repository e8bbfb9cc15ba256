import BlockLedger.Files
import Mathlib.Tactic.SplitIfs

/-!
# What paths lead to

A path that leads to an item leads to it for as long as nothing is taken away
(`Extends.resolve_item`), and a path that leads to a free name leads to what is put there
(`Extends.resolve_vacant`). Files and directories are only ever added by opening a journal, and the
contents of files say nothing about where paths lead.

A file system is sound if every file in it has contents (`Sound`). The empty one is, and it stays so
whatever is written, made or taken away.
-/

namespace BlockLedger

/-- The item that has been opened. -/
def Handle.item : Handle → Item
  | .file n => .file n
  | .full => .full

namespace FileSystem

variable {fs fs' fs'' : FileSystem}

/-! ### Items -/

theorem item?_of_ne_nil {location : Location} (h : location ≠ []) :
    fs.item? location = fs.items.lookup location := if_neg h

theorem ne_nil_of_item?_eq_none {location : Location} (h : fs.item? location = none) :
    location ≠ [] := by
  rintro rfl
  cases h

/-- **Nothing has been taken away**: what stood at a location stands there still, and one is in the
same directory. -/
structure Extends (fs fs' : FileSystem) : Prop where
  here_eq : fs'.here = fs.here
  item : ∀ {location : Location} {i : Item},
    fs.item? location = some i → fs'.item? location = some i

theorem Extends.refl (fs : FileSystem) : fs.Extends fs := ⟨rfl, id⟩

theorem Extends.trans (h : fs.Extends fs') (h' : fs'.Extends fs'') : fs.Extends fs'' :=
  ⟨h'.here_eq.trans h.here_eq, fun hi => h'.item (h.item hi)⟩

/-- Items and the directory one is in decide what paths lead to. -/
theorem extends_of_items_eq (hitems : fs'.items = fs.items) (hhere : fs'.here = fs.here) :
    fs.Extends fs' := by
  refine ⟨hhere, fun {location i} hi => ?_⟩
  rw [item?, hitems]
  exact hi

/-- An item put where none was. -/
theorem extends_of_items_cons {location : Location} {i : Item} (hnone : fs.item? location = none)
    (hitems : fs'.items = (location, i) :: fs.items) (hhere : fs'.here = fs.here) :
    fs.Extends fs' ∧ fs'.item? location = some i := by
  have hne := ne_nil_of_item?_eq_none hnone
  refine ⟨⟨hhere, fun {other j} hj => ?_⟩, ?_⟩
  · by_cases hother : other = []
    · rw [item?, if_pos hother]
      rw [item?, if_pos hother] at hj
      exact hj
    · -- the other location is not the one where nothing was
      have hdiff : other ≠ location := by
        rintro rfl
        rw [hnone] at hj
        cases hj
      rw [item?_of_ne_nil hother, hitems, List.lookup_cons, beq_eq_false_iff_ne.2 hdiff]
      rw [item?_of_ne_nil hother] at hj
      exact hj
  · rw [item?_of_ne_nil hne, hitems, List.lookup_cons, beq_self_eq_true]

/-! ### Walking -/

/-- What a walk leads to stands there. -/
theorem item?_of_walk {location l : Location} {names : List String} {i : Item}
    (h : fs.walk location names = .ok (.item l i)) : fs.item? l = some i := by
  induction names generalizing location with
  | nil =>
    rw [walk] at h
    split at h
    · next hi =>
      cases h
      exact hi
    · cases h
  | cons name names ih =>
    rw [walk] at h
    split at h
    · cases h
    · split_ifs at h
      · exact ih h
      · exact ih h
      · exact ih h
      · cases h
    · cases h

/-- Nothing stands where a walk leads to a free name. -/
theorem item?_of_walk_vacant {location l : Location} {names : List String}
    (h : fs.walk location names = .ok (.vacant l)) : fs.item? l = none := by
  induction names generalizing location with
  | nil =>
    rw [walk] at h
    split at h
    · cases h
    · cases h
  | cons name names ih =>
    rw [walk] at h
    split at h
    · cases h
    · split_ifs at h with _ _ _ hsome
      · exact ih h
      · exact ih h
      · exact ih h
      · cases h
        exact Option.not_isSome_iff_eq_none.1 hsome
    · cases h

/-- **A walk to an item** takes the same way when nothing has been taken away. -/
theorem Extends.walk_item (h : fs.Extends fs') {location l : Location} {names : List String}
    {i : Item} (hw : fs.walk location names = .ok (.item l i)) :
    fs'.walk location names = .ok (.item l i) := by
  induction names generalizing location with
  | nil =>
    rw [walk] at hw ⊢
    split at hw
    · next hi =>
      cases hw
      rw [h.item hi]
    · cases hw
  | cons name names ih =>
    rw [walk] at hw ⊢
    split at hw
    · cases hw
    · next hdir =>
      rw [h.item hdir]
      simp only
      split_ifs at hw with hdot hup hlong hsome
      · rw [if_pos hdot]
        exact ih hw
      · rw [if_neg hdot, if_pos hup]
        exact ih hw
      · -- what is there is there still
        obtain ⟨j, hj⟩ := Option.isSome_iff_exists.1 hsome
        rw [if_neg hdot, if_neg hup, if_neg hlong, if_pos (by rw [h.item hj]; rfl)]
        exact ih hw
      · cases hw
    · cases hw

/-- **A walk to a free name** leads to what has been put there. -/
theorem Extends.walk_vacant (h : fs.Extends fs') {location l : Location} {names : List String}
    {i : Item} (hw : fs.walk location names = .ok (.vacant l)) (hi : fs'.item? l = some i) :
    fs'.walk location names = .ok (.item l i) := by
  induction names generalizing location with
  | nil =>
    rw [walk] at hw
    split at hw
    · cases hw
    · cases hw
  | cons name names ih =>
    rw [walk] at hw ⊢
    split at hw
    · cases hw
    · next hdir =>
      rw [h.item hdir]
      simp only
      split_ifs at hw with hdot hup hlong hsome hlast
      · rw [if_pos hdot]
        exact ih hw
      · rw [if_neg hdot, if_pos hup]
        exact ih hw
      · obtain ⟨j, hj⟩ := Option.isSome_iff_exists.1 hsome
        rw [if_neg hdot, if_neg hup, if_neg hlong, if_pos (by rw [h.item hj]; rfl)]
        exact ih hw
      · -- the free name is the last one
        cases hw
        rw [if_neg hdot, if_neg hup, if_neg hlong, if_pos (by rw [hi]; rfl), hlast, walk, hi]
    · cases hw

/-! ### Paths -/

/-- A path that leads anywhere is walked from its starting point. -/
theorem resolve_eq_ok_iff {path : String} {t : Target} :
    fs.resolve path = .ok t ↔
      path ≠ "" ∧ path.toList.contains '\x00' = false ∧ byteLength path < tooLongPath ∧
        fs.walk (if Path.isAbsolute path then [] else fs.here) (Path.names path) = .ok t := by
  rw [resolve]
  by_cases hempty : path = ""
  · rw [if_pos hempty]
    simp [hempty]
  rw [if_neg hempty]
  by_cases hnul : path.toList.contains '\x00' = true
  · rw [if_pos hnul]
    refine ⟨fun h => ?_, fun h => ?_⟩
    · cases h
    · rw [hnul] at h
      cases h.2.1
  rw [if_neg hnul]
  by_cases hlong : tooLongPath ≤ byteLength path
  · rw [if_pos hlong]
    simp [Nat.not_lt.2 hlong]
  rw [if_neg hlong]
  exact ⟨fun h => ⟨hempty, Bool.eq_false_iff.2 hnul, Nat.lt_of_not_le hlong, h⟩, fun h => h.2.2.2⟩

theorem item?_of_resolve {path : String} {l : Location} {i : Item}
    (h : fs.resolve path = .ok (.item l i)) : fs.item? l = some i :=
  item?_of_walk (resolve_eq_ok_iff.1 h).2.2.2

theorem item?_of_resolve_vacant {path : String} {l : Location}
    (h : fs.resolve path = .ok (.vacant l)) : fs.item? l = none :=
  item?_of_walk_vacant (resolve_eq_ok_iff.1 h).2.2.2

theorem Extends.resolve_item (h : fs.Extends fs') {path : String} {l : Location} {i : Item}
    (hpath : fs.resolve path = .ok (.item l i)) : fs'.resolve path = .ok (.item l i) := by
  obtain ⟨hempty, hnul, hlong, hw⟩ := resolve_eq_ok_iff.1 hpath
  refine resolve_eq_ok_iff.2 ⟨hempty, hnul, hlong, ?_⟩
  rw [h.here_eq]
  exact h.walk_item hw

theorem Extends.resolve_vacant (h : fs.Extends fs') {path : String} {l : Location} {i : Item}
    (hpath : fs.resolve path = .ok (.vacant l)) (hi : fs'.item? l = some i) :
    fs'.resolve path = .ok (.item l i) := by
  obtain ⟨hempty, hnul, hlong, hw⟩ := resolve_eq_ok_iff.1 hpath
  refine resolve_eq_ok_iff.2 ⟨hempty, hnul, hlong, ?_⟩
  rw [h.here_eq]
  exact h.walk_vacant hw hi

/-- There is a directory at a path iff the path leads to one. -/
theorem isDirectory_iff {path : String} :
    fs.isDirectory path = true ↔ ∃ l, fs.resolve path = .ok (.item l .directory) := by
  have hfind : fs.isDirectory path = true ↔ fs.find path = .ok .directory := by
    rw [isDirectory, decide_eq_true_iff]
    cases fs.find path <;> simp [Except.toOption]
  rw [hfind, find]
  split
  · next heq => simp [heq]
  · next heq => simp [heq]
  · next heq => simp [heq]
  · next i hne heq =>
    have hdir : i ≠ .directory := fun h => hne h
    split_ifs <;> simp [heq, hdir]

/-- The bytes of an open file are read at the path that leads to it. -/
theorem read_of_resolve {path : String} (hslash : Path.endsWithSlash path = false) {l : Location}
    {handle : Handle} (h : fs.resolve path = .ok (.item l handle.item)) :
    fs.read path = .ok (fs.bytesOf handle) := by
  rw [read, find, h]
  cases handle <;> simp [Handle.item, hslash]

/-! ### Sound file systems -/

/-- **Every file has contents.** -/
def Sound (fs : FileSystem) : Prop :=
  ∀ (location : Location) (n : Nat), (location, .file n) ∈ fs.items → n < fs.contents.length

theorem Sound.lt_of_item? (h : fs.Sound) {location : Location} {n : Nat}
    (hi : fs.item? location = some (.file n)) : n < fs.contents.length := by
  by_cases hl : location = []
  · rw [item?, if_pos hl] at hi
    cases hi
  · rw [item?_of_ne_nil hl] at hi
    obtain ⟨before, later, hitems, -⟩ := List.lookup_eq_some_iff.1 hi
    refine h location n ?_
    rw [hitems]
    exact List.mem_append_right before List.mem_cons_self

/-- A path to a file leads to one that has contents. -/
theorem Sound.lt_of_resolve (h : fs.Sound) {path : String} {l : Location} {n : Nat}
    (hpath : fs.resolve path = .ok (.item l (.file n))) : n < fs.contents.length :=
  h.lt_of_item? (item?_of_resolve hpath)

theorem sound_fresh : fresh.Sound := by
  intro location n h
  simp [fresh] at h

/-! ### Contents -/

theorem extends_setBytes (fs : FileSystem) (handle : Handle) (bytes : Bytes) :
    fs.Extends (fs.setBytes handle bytes) := by
  cases handle with
  | file n => exact extends_of_items_eq rfl rfl
  | full => exact .refl fs

theorem length_contents_setBytes (fs : FileSystem) (handle : Handle) (bytes : Bytes) :
    (fs.setBytes handle bytes).contents.length = fs.contents.length := by
  cases handle with
  | file n => exact List.length_set
  | full => rfl

/-- An open file holds the bytes it is given. The device that is always full takes none. -/
theorem bytesOf_setBytes {handle : Handle} (h : ∀ n, handle = .file n → n < fs.contents.length)
    {bytes : Bytes} (hfull : handle = .full → bytes = []) :
    (fs.setBytes handle bytes).bytesOf handle = bytes := by
  cases handle with
  | file n =>
    have hn : n < (fs.contents.set n bytes).length := by
      rw [List.length_set]
      exact h n rfl
    rw [setBytes, bytesOf, List.getD_eq_getElem?_getD, List.getElem?_eq_getElem hn,
      List.getElem_set_self]
    rfl
  | full =>
    rw [hfull rfl]
    rfl

/-- Bytes are put behind those that an open file holds. -/
theorem bytesOf_extend {handle : Handle} (h : ∀ n, handle = .file n → n < fs.contents.length)
    {bytes : Bytes} (hfull : handle = .full → bytes = []) :
    (fs.extend handle bytes).bytesOf handle = fs.bytesOf handle ++ bytes := by
  refine bytesOf_setBytes h fun heq => ?_
  rw [hfull heq, heq]
  rfl

/-- A file that is made as long as its front is cut back to it. -/
theorem bytesOf_resize {handle : Handle} (h : ∀ n, handle = .file n → n < fs.contents.length)
    {front rest : Bytes} (hbytes : fs.bytesOf handle = front ++ rest) :
    (fs.resize handle front.length).bytesOf handle = front := by
  have hcut : (front ++ rest).take front.length ++
      List.replicate (front.length - (front ++ rest).length) 0 = front := by
    rw [List.take_left', List.length_append, Nat.sub_eq_zero_of_le (Nat.le_add_right _ _)]
    · exact List.append_nil front
    · rfl
  rw [resize, hbytes, hcut]
  refine bytesOf_setBytes h fun heq => ?_
  -- the device holds nothing, so neither does a front of it
  rw [heq] at hbytes
  exact (List.append_eq_nil_iff.1 hbytes.symm).1

theorem Sound.setBytes (h : fs.Sound) (handle : Handle) (bytes : Bytes) :
    (fs.setBytes handle bytes).Sound := by
  intro location n hmem
  rw [length_contents_setBytes]
  cases handle with
  | file m => exact h location n hmem
  | full => exact h location n hmem

theorem Sound.addFile (h : fs.Sound) (location : Location) : (fs.addFile location).Sound := by
  intro other n hmem
  rw [FileSystem.addFile, List.length_append, List.length_singleton]
  rcases List.mem_cons.1 hmem with heq | hmem
  · cases heq
    exact Nat.lt_succ_self _
  · exact Nat.lt_succ_of_lt (h other n hmem)

theorem Sound.openFile (h : fs.Sound) {path : String} {handle : Handle}
    (hopen : fs.openFile path = .ok (handle, fs')) : fs'.Sound := by
  rw [FileSystem.openFile] at hopen
  split at hopen
  · cases hopen
  · split_ifs at hopen
    split at hopen
    · cases hopen
    · cases hopen
      exact h
    · cases hopen
      exact h
    · cases hopen
      exact h.addFile _

/-- A file that has been written anew has contents, and so have the others. -/
theorem Sound.write (h : fs.Sound) {path : String} {bytes : Bytes}
    (hwrite : fs.write path bytes = .ok fs') : fs'.Sound := by
  rw [FileSystem.write] at hwrite
  split at hwrite
  · cases hwrite
  · next opened hopen =>
    split_ifs at hwrite
    cases hwrite
    exact h.openFile hopen
  · next hopen =>
    cases hwrite
    exact (h.openFile hopen).setBytes _ _

/-! ### Opening files -/

/-- **The file that is opened at a path** is the one that the path leads to, or a new one. -/
theorem openFile_cases {path : String} {handle : Handle}
    (h : fs.openFile path = .ok (handle, fs')) :
    Path.endsWithSlash path = false ∧
      ((fs' = fs ∧ ∃ l, fs.resolve path = .ok (.item l handle.item)) ∨
        ∃ l, fs.resolve path = .ok (.vacant l) ∧ handle = .file fs.contents.length ∧
          fs' = fs.addFile l) := by
  rw [openFile] at h
  split at h
  · cases h
  · next target htarget =>
    by_cases hslash : Path.endsWithSlash path = true
    · rw [if_pos hslash] at h
      cases h
    rw [if_neg hslash] at h
    refine ⟨Bool.eq_false_iff.2 hslash, ?_⟩
    split at h
    · cases h
    · next l n =>
      cases h
      exact .inl ⟨rfl, l, htarget⟩
    · next l =>
      cases h
      exact .inl ⟨rfl, l, htarget⟩
    · next l =>
      cases h
      exact .inr ⟨l, htarget, rfl, rfl⟩

/-- A new file stands where nothing was. -/
theorem extends_addFile {location : Location} (hnone : fs.item? location = none) :
    fs.Extends (fs.addFile location) ∧
      (fs.addFile location).item? location = some (.file fs.contents.length) :=
  extends_of_items_cons hnone rfl rfl

/-- An open file is at its path, and it has contents. -/
theorem openFile_eq_ok {path : String} {handle : Handle} (hsound : fs.Sound)
    (h : fs.openFile path = .ok (handle, fs')) :
    fs.Extends fs' ∧ Path.endsWithSlash path = false ∧
      (∃ l, fs'.resolve path = .ok (.item l handle.item)) ∧
      (∀ n, handle = .file n → n < fs'.contents.length) := by
  obtain ⟨hslash, ⟨rfl, l, hl⟩ | ⟨l, hl, rfl, rfl⟩⟩ := openFile_cases h
  · refine ⟨.refl _, hslash, ⟨l, hl⟩, fun n hn => ?_⟩
    rw [hn] at hl
    exact hsound.lt_of_resolve hl
  · obtain ⟨hextends, hitem⟩ := extends_addFile (item?_of_resolve_vacant hl)
    refine ⟨hextends, hslash, ⟨l, hextends.resolve_vacant hl hitem⟩, fun n hn => ?_⟩
    cases hn
    rw [addFile, List.length_append, List.length_singleton]
    exact Nat.lt_succ_self _

/-! ### Making directories -/

/-- A directory is made where a path leads to a free name, and then the path leads to it. -/
theorem makeDirectory_eq_ok {path : String} (h : fs.makeDirectory path = .ok fs') :
    (∃ l, fs'.resolve path = .ok (.item l .directory)) ∧ (fs.Sound → fs'.Sound) := by
  rw [makeDirectory] at h
  split at h
  · cases h
  · cases h
  · next l hpath =>
    cases h
    let made : FileSystem := { fs with items := (l, .directory) :: fs.items }
    have hmade : fs.Extends made ∧ made.item? l = some .directory :=
      extends_of_items_cons (item?_of_resolve_vacant hpath) rfl rfl
    obtain ⟨hextends, hitem⟩ := hmade
    refine ⟨⟨l, hextends.resolve_vacant hpath hitem⟩, fun hsound location n hmem => ?_⟩
    rcases List.mem_cons.1 hmem with heq | hmem
    · cases heq
    · exact hsound location n hmem

/-- Whatever becomes of the directories that are to be made, all files keep their contents. -/
theorem Sound.makeDirectoriesAlong (h : fs.Sound) (paths : List String) :
    (fs.makeDirectoriesAlong paths).2.Sound := by
  induction paths with
  | nil => exact h
  | cons path parents ih =>
    rw [FileSystem.makeDirectoriesAlong]
    by_cases hempty : path = ""
    · rw [if_pos hempty]
      exact h
    rw [if_neg hempty]
    split
    · next made hmade => exact (makeDirectory_eq_ok hmade).2 h
    · split
      · next partly hpartly =>
        rw [hpartly] at ih
        exact ih
      · next above habove =>
        rw [habove] at ih
        split
        · next made hmade => exact (makeDirectory_eq_ok hmade).2 ih
        · exact ih
    · exact h

/-- **Once a directory has been made**, its path leads to it. -/
theorem makeDirectories_eq_ok {path : String} (hempty : path ≠ "")
    (h : fs.makeDirectories path = (.ok (), fs')) :
    ∃ l, fs'.resolve path = .ok (.item l .directory) := by
  rw [makeDirectories, ancestors, FileSystem.makeDirectoriesAlong, if_neg hempty] at h
  split at h
  · next made hmade =>
    cases h
    exact (makeDirectory_eq_ok hmade).1
  · split at h
    · cases h
    · next above habove =>
      split at h
      · next made hmade =>
        cases h
        exact (makeDirectory_eq_ok hmade).1
      · split_ifs at h with hdir
        · cases h
          exact isDirectory_iff.1 hdir
        · cases h
  · split_ifs at h with hdir
    · cases h
      exact isDirectory_iff.1 hdir
    · cases h

/-- A directory that is there is not made again. -/
theorem makeDirectories_of_resolve {path : String} {l : Location}
    (h : fs.resolve path = .ok (.item l .directory)) : fs.makeDirectories path = (.ok (), fs) := by
  have hempty : path ≠ "" := (resolve_eq_ok_iff.1 h).1
  have hexists : fs.makeDirectory path = .error .exists := by
    rw [makeDirectory, h]
  rw [makeDirectories, ancestors, FileSystem.makeDirectoriesAlong, if_neg hempty, hexists]
  simp only
  rw [if_pos (isDirectory_iff.2 ⟨l, h⟩)]

end FileSystem

end BlockLedger
