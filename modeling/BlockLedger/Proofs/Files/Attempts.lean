import BlockLedger.Proofs.Files.Changes

/-!
# Attempts

What is done to the files may fail half-way. Looking up what befalls an attempt changes nothing that
can be read (`FileSystem.alike_takeMishap`), and from then on an attempt does no more than the plain
operation would do with a part of what it has been given: it makes some of the directories
(`FileSystem.deepens_makeDirectoriesWith`), or writes a front of the bytes
(`FileSystem.attemptWrite_eq_error`). So what is known of the plain operations is known of the
attempts as well. If nothing is to befall anything, an attempt is the plain operation.

Which files have changed is told by looking at all locations (`FileSystem.bytesAt?`).
-/

namespace BlockLedger.FileSystem

variable {fs fs' : FileSystem} {path : String} {location : Location} {bytes : Bytes}

/-! ### Files that are alike -/

/-- **Two file systems hold the same**, whatever is to befall later attempts. -/
structure Alike (fs fs' : FileSystem) : Prop where
  items_eq : fs'.items = fs.items
  contents_eq : fs'.contents = fs.contents
  here_eq : fs'.here = fs.here

theorem Alike.refl (fs : FileSystem) : fs.Alike fs := ⟨rfl, rfl, rfl⟩

theorem Alike.symm (h : fs.Alike fs') : fs'.Alike fs :=
  ⟨h.items_eq.symm, h.contents_eq.symm, h.here_eq.symm⟩

theorem Alike.trans {fs'' : FileSystem} (h : fs.Alike fs') (h' : fs'.Alike fs'') : fs.Alike fs'' :=
  ⟨h'.items_eq.trans h.items_eq, h'.contents_eq.trans h.contents_eq, h'.here_eq.trans h.here_eq⟩

theorem Alike.eq (h : fs.Alike fs') : fs' = { fs with mishaps := fs'.mishaps } := by
  obtain ⟨items, contents, here, mishaps⟩ := fs'
  obtain ⟨hitems, hcontents, hhere⟩ := h
  cases hitems
  cases hcontents
  cases hhere
  rfl

theorem Alike.eq_of_mishaps (h : fs.Alike fs') (hmishaps : fs'.mishaps = fs.mishaps) : fs' = fs := by
  rw [h.eq, hmishaps]

theorem Alike.leads (h : fs.Alike fs') : fs.Extends fs' := extends_of_items_eq h.items_eq h.here_eq

theorem Alike.sound (h : fs.Alike fs') (hsound : fs.Sound) : fs'.Sound := by
  unfold Sound
  rw [h.items_eq, h.contents_eq]
  exact hsound

theorem Alike.bytesOf_eq (h : fs.Alike fs') (handle : Handle) :
    fs'.bytesOf handle = fs.bytesOf handle := by
  rw [h.eq]
  rfl

/-- Looking up what befalls an attempt changes nothing else. -/
theorem alike_takeMishap (fs : FileSystem) : fs.Alike fs.takeMishap.2 := by
  unfold takeMishap
  split
  · exact .refl fs
  · exact ⟨rfl, rfl, rfl⟩

theorem takeMishap_of_calm (h : fs.mishaps = []) : fs.takeMishap = (none, fs) := by
  rw [takeMishap, h]

/-- What befalls an attempt was to befall one. -/
theorem mem_mishaps_of_takeMishap {m : Mishap} (h : fs.takeMishap.1 = some m) :
    some m ∈ fs.mishaps := by
  unfold takeMishap at h
  split at h
  · cases h
  · next heq =>
    rw [heq, ← h]
    exact List.mem_cons_self

/-- Nothing else is to befall later attempts. -/
theorem mishaps_takeMishap_suffix (fs : FileSystem) : fs.takeMishap.2.mishaps <:+ fs.mishaps := by
  unfold takeMishap
  split
  · exact List.suffix_rfl
  · next m ms heq =>
    rw [heq]
    exact List.suffix_cons m ms

/-! ### What attempts do -/

/-- **Making directories** adds directories and nothing else, whatever befalls it. -/
theorem deepens_makeDirectoriesWith (mishap : Option Mishap) (fs : FileSystem) (path : String) :
    fs.Deepens (fs.makeDirectoriesWith mishap path).2 := by
  cases mishap with
  | none => exact deepens_makeDirectories fs path
  | some m =>
    rw [makeDirectoriesWith]
    split_ifs
    · exact .refl fs
    · exact deepens_makeDirectoriesAlong fs _

theorem Sound.makeDirectoriesWith (h : fs.Sound) (mishap : Option Mishap) (path : String) :
    (fs.makeDirectoriesWith mishap path).2.Sound := by
  cases mishap with
  | none => exact h.makeDirectoriesAlong _
  | some m =>
    rw [FileSystem.makeDirectoriesWith]
    split_ifs
    · exact h
    · exact h.makeDirectoriesAlong _

/-- Where directories have been made, or nothing was missed about them, they are there. -/
theorem makeDirectoriesWith_eq_ok {mishap : Option Mishap}
    (h : fs.makeDirectoriesWith mishap path = (.ok (), fs')) :
    fs.makeDirectories path = (.ok (), fs') := by
  cases mishap with
  | none => exact h
  | some m =>
    rw [makeDirectoriesWith] at h
    split_ifs at h with hthere
    · cases h
      obtain ⟨l, hl⟩ := isDirectory_iff.1 hthere
      exact makeDirectories_of_resolve hl
    · cases h

/-- **An attempt to write a file anew** that does not fail has written it. -/
theorem attemptWrite_eq_ok (h : fs.attemptWrite path bytes = (.ok (), fs')) :
    fs.takeMishap.2.write path bytes = .ok fs' := by
  unfold attemptWrite at h
  split at h
  · next later heq =>
    rw [heq]
    split at h
    · cases h
    · next hwrite =>
      cases h
      exact hwrite
  · next m later heq =>
    rw [heq]
    split at h
    · cases h
    · next hwrite =>
      split_ifs at h with hundo hfront
      · cases h
      · cases h
      · cases h
        -- what befell it would have come behind the last byte
        rw [List.take_of_length_le (Nat.le_of_not_lt hfront)] at hwrite
        exact hwrite

/-- **An attempt to write a file anew** that fails has done nothing, or what has befallen it has let a
front of the bytes through. -/
theorem attemptWrite_eq_error {e : FileFault} (h : fs.attemptWrite path bytes = (.error e, fs')) :
    fs' = fs.takeMishap.2 ∨
      ∃ m, fs.takeMishap.1 = some m ∧ e = m.cause ∧ m.undo ≠ .done ∧ m.written < bytes.length ∧
        fs.takeMishap.2.write path (bytes.take m.written) = .ok fs' := by
  unfold attemptWrite at h
  split at h
  · next later heq =>
    rw [heq]
    split at h
    · cases h
      exact .inl rfl
    · cases h
  · next m later heq =>
    rw [heq]
    split at h
    · cases h
      exact .inl rfl
    · next hwrite =>
      split_ifs at h with hundo hfront
      · cases h
        exact .inl rfl
      · cases h
        exact .inr ⟨m, rfl, rfl, hundo, hfront, hwrite⟩
      · cases h

/-- An attempt that nothing befalls is the plain operation. -/
theorem attemptWrite_of_calm (hcalm : fs.mishaps = []) (h : fs.write path bytes = .ok fs') :
    fs.attemptWrite path bytes = (.ok (), fs') := by
  rw [attemptWrite, takeMishap_of_calm hcalm]
  simp only [h]

/-! ### Files at their locations -/

theorem bytesAt?_eq_some_iff :
    fs.bytesAt? location = some bytes ↔
      ∃ n, fs.item? location = some (.file n) ∧ fs.bytesOf (.file n) = bytes := by
  unfold bytesAt?
  split
  · next n hn => simp [hn]
  · next hnot =>
    refine iff_of_false nofun ?_
    rintro ⟨n, hn, -⟩
    exact hnot n hn

theorem bytesAt?_of_item {n : Nat} (h : fs.item? location = some (.file n)) :
    fs.bytesAt? location = some (fs.bytesOf (.file n)) :=
  bytesAt?_eq_some_iff.2 ⟨n, h, rfl⟩

/-- A location is as it was if the same file stands there and holds the same. -/
theorem bytesAt?_congr
    (hitem : ∀ n, fs'.item? location = some (.file n) ↔ fs.item? location = some (.file n))
    (hbytes : ∀ n, fs.item? location = some (.file n) →
      fs'.bytesOf (.file n) = fs.bytesOf (.file n)) :
    fs'.bytesAt? location = fs.bytesAt? location := by
  refine Option.ext fun bytes => ?_
  rw [bytesAt?_eq_some_iff, bytesAt?_eq_some_iff]
  refine exists_congr fun n => ?_
  rw [hitem]
  exact and_congr_right fun hn => by rw [hbytes n hn]

theorem Alike.bytesAt?_eq (h : fs.Alike fs') (location : Location) :
    fs'.bytesAt? location = fs.bytesAt? location :=
  bytesAt?_congr (fun _ => ⟨h.symm.leads.item, h.leads.item⟩) fun _ _ => h.bytesOf_eq _

/-- **Making directories** leaves every file as it was. -/
theorem Deepens.bytesAt?_eq (h : fs.Deepens fs') (location : Location) :
    fs'.bytesAt? location = fs.bytesAt? location := by
  refine bytesAt?_congr (fun n => ⟨fun hnow => ?_, h.leads.item⟩) fun n _ => h.bytesOf_eq _
  -- a file is not a directory that has been made
  exact (h.added _ _ hnow).resolve_right nofun

/-- **Writing a file** leaves every other one as it was. -/
theorem bytesAt?_of_write {place : Location} {n : Nat}
    (hwrite : fs.write path bytes = .ok fs') (htouches : Touches n fs fs')
    (hplace : fs'.resolve path = .ok (.item place (.file n)))
    (hother : fs'.item? location ≠ some (.file n)) :
    fs'.bytesAt? location = fs.bytesAt? location := by
  refine bytesAt?_congr (fun m => ⟨fun hnow => ?_, htouches.leads.item⟩) fun m hm => ?_
  · rcases item?_of_write hwrite hnow with hbefore | hvacant
    · exact hbefore
    · -- what has been put at a free name is the file that has been written
      have hthere := htouches.leads.resolve_vacant hvacant hnow
      rw [hplace] at hthere
      cases hthere
      exact absurd hnow hother
  · refine htouches.others m ?_
    rintro rfl
    exact hother (htouches.leads.item hm)

/-- **Giving a file other bytes** leaves every other one as it was. -/
theorem bytesAt?_setBytes_of_ne {n : Nat} (hother : fs.item? location ≠ some (.file n)) :
    (fs.setBytes (.file n) bytes).bytesAt? location = fs.bytesAt? location := by
  have htouches := touches_setBytes fs n bytes
  refine bytesAt?_congr (fun m => Iff.rfl) fun m hm => htouches.others m ?_
  rintro rfl
  exact hother hm

/-- Opening a file changes no file, but may add an empty one. -/
theorem bytesAt?_of_openFile {handle : Handle} (h : fs.openFile path = .ok (handle, fs'))
    (location : Location) :
    fs'.bytesAt? location = fs.bytesAt? location ∨
      fs'.item? location = some handle.item ∧ fs.bytesAt? location = none ∧
        fs'.bytesAt? location = some [] := by
  obtain ⟨-, ⟨rfl, -⟩ | ⟨place, hvacant, rfl, rfl⟩⟩ := openFile_cases h
  · exact .inl rfl
  have hnone : fs.item? place = none := item?_of_resolve_vacant hvacant
  obtain ⟨hleads, hnew⟩ := extends_addFile hnone
  by_cases hplace : location = place
  · subst hplace
    have hempty : (fs.addFile location).bytesOf (.file fs.contents.length) = [] := by
      rw [bytesOf_addFile, bytesOf, List.getD_eq_default _ _ (Nat.le_refl _)]
    refine .inr ⟨hnew, ?_, ?_⟩
    · rw [bytesAt?, hnone]
    · rw [bytesAt?_of_item hnew, hempty]
  · have hadded : (fs.addFile place).items = (place, .file fs.contents.length) :: fs.items := rfl
    refine .inl (bytesAt?_congr (fun m => ⟨fun hnow => ?_, hleads.item⟩) fun m _ =>
      bytesOf_addFile place m)
    exact (item?_of_items_cons hadded hnow).resolve_right fun hsame => hplace hsame.1

end BlockLedger.FileSystem
