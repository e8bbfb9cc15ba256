import BlockLedger.Proofs.Files.Lookup
import BlockLedger.Proofs.Text.Pieces

/-!
# Names in a directory

The path of a file in a directory leads through that directory: the names of the joined path are those
of the directory with the name of the file behind them (`Path.names_join`), and a walk along them goes
into what the names of the directory have led to (`FileSystem.walk_concat`). So the path leads to what
stands for that name in the directory (`FileSystem.resolve_join_iff`), and two names in one directory
never lead to the same location.
-/

namespace BlockLedger

namespace Path

/-- **A plain name** has no slash, and is not that of the directory itself or of the one it lies
in. -/
structure Plain (name : String) : Prop where
  ne_empty : name ≠ ""
  slash : '/' ∉ name.toList
  ne_dot : name ≠ "."
  ne_up : name ≠ ".."
  short : byteLength name ≤ FileSystem.longestName

variable {directory name : String}

theorem Plain.isAbsolute_eq (h : Plain name) : isAbsolute name = false := by
  rw [isAbsolute, decide_eq_false_iff_not]
  intro hslash
  exact h.slash (List.mem_of_head? hslash)

/-- A plain name is its only name. -/
theorem Plain.names_eq (h : Plain name) : names name = [name] := by
  have hne : name.toList ≠ [] := fun hnil => h.ne_empty (String.toList_eq_nil_iff.1 hnil)
  rw [names, pieces_of_notMem h.slash]
  simp [hne]

/-- Names on both sides of a slash. -/
theorem names_append_slash (a b : List Char) :
    names (String.ofList (a ++ '/' :: b)) = names (String.ofList a) ++ names (String.ofList b) := by
  simp only [names, String.toList_ofList, pieces_append, List.filter_append, List.map_append]

/-- A path that ends with a slash is what stands before it, and the slash. -/
theorem exists_of_endsWithSlash (h : endsWithSlash directory = true) :
    ∃ cs, directory.toList = cs ++ ['/'] := by
  rw [endsWithSlash, decide_eq_true_iff] at h
  obtain ⟨cs, hcs⟩ := List.getLast?_eq_some_iff.1 h
  exact ⟨cs, hcs⟩

/-- **The names of the path of a file in a directory.** -/
theorem names_join (h : Plain name) : names (join directory name) = names directory ++ [name] := by
  rw [join, h.isAbsolute_eq, if_neg Bool.false_ne_true, ← h.names_eq]
  by_cases hempty : directory = ""
  · rw [if_pos (by rw [hempty]; rfl), hempty, String.empty_append]
    rfl
  by_cases hslash : endsWithSlash directory = true
  · -- the slash at the end of the directory is the one between both
    obtain ⟨cs, hcs⟩ := exists_of_endsWithSlash hslash
    have hdirectory : directory = String.ofList (cs ++ '/' :: []) := by
      rw [← hcs, String.ofList_toList]
    have hjoined : directory ++ name = String.ofList (cs ++ '/' :: name.toList) := by
      apply String.toList_injective
      rw [String.toList_append, hcs, String.toList_ofList, List.append_assoc]
      rfl
    have hnone : names (String.ofList []) = [] := rfl
    rw [if_pos (by rw [hslash, Bool.or_true]), hjoined, names_append_slash, hdirectory,
      names_append_slash, hnone, List.append_nil, String.ofList_toList]
  · -- the slash is put between both
    have hslash' : "/".toList = ['/'] := rfl
    have hjoined : directory ++ "/" ++ name =
        String.ofList (directory.toList ++ '/' :: name.toList) := by
      apply String.toList_injective
      rw [String.toList_append, String.toList_append, hslash', List.append_assoc,
        List.singleton_append, String.toList_ofList]
    rw [if_neg (by simp [hempty, hslash]), hjoined, names_append_slash, String.ofList_toList,
      String.ofList_toList]

/-- In the path of a file in a directory that of the directory stands in front, whether a slash has been
put between both or not. -/
theorem Plain.exists_join_eq (h : Plain name) (directory : String) :
    ∃ behind, (join directory name).toList = directory.toList ++ behind := by
  rw [join, h.isAbsolute_eq, if_neg Bool.false_ne_true]
  split
  · exact ⟨_, String.toList_append⟩
  · exact ⟨_, by rw [String.toList_append, String.toList_append, List.append_assoc]⟩

/-- The path of a file in a directory starts where that of the directory does. -/
theorem isAbsolute_join (h : Plain name) :
    isAbsolute (join directory name) = isAbsolute directory := by
  by_cases hempty : directory = ""
  · have hjoined : join "" name = name := by
      rw [join, h.isAbsolute_eq, if_neg Bool.false_ne_true, if_pos (by rfl), String.empty_append]
    rw [hempty, hjoined, h.isAbsolute_eq]
    rfl
  have hcs : directory.toList ≠ [] := fun hnil => hempty (String.toList_eq_nil_iff.1 hnil)
  obtain ⟨behind, hbehind⟩ := h.exists_join_eq directory
  rw [isAbsolute, isAbsolute, hbehind, List.head?_append_of_ne_nil _ hcs]

/-- The path of a file in a directory does not end with a slash. -/
theorem endsWithSlash_join (h : Plain name) : endsWithSlash (join directory name) = false := by
  have hne : name.toList ≠ [] := fun hnil => h.ne_empty (String.toList_eq_nil_iff.1 hnil)
  have hend : ∃ front, (join directory name).toList = front ++ name.toList := by
    rw [join, h.isAbsolute_eq, if_neg Bool.false_ne_true]
    split
    · exact ⟨_, String.toList_append⟩
    · exact ⟨_, String.toList_append⟩
  obtain ⟨front, hfront⟩ := hend
  rw [endsWithSlash, hfront, List.getLast?_append_of_ne_nil _ hne, decide_eq_false_iff_not]
  intro hslash
  exact h.slash (List.mem_of_getLast? hslash)

end Path

namespace FileSystem

variable {fs : FileSystem} {directory name : String}

/-! ### Going into a directory -/

/-- What stands for a name in a directory. -/
def within (fs : FileSystem) (location : Location) (name : String) : Target :=
  match fs.item? (location ++ [name]) with
  | some i => .item (location ++ [name]) i
  | none => .vacant (location ++ [name])

theorem within_of_item {location : Location} {i : Item}
    (h : fs.item? (location ++ [name]) = some i) :
    fs.within location name = .item (location ++ [name]) i := by
  rw [within, h]

theorem within_of_none {location : Location} (h : fs.item? (location ++ [name]) = none) :
    fs.within location name = .vacant (location ++ [name]) := by
  rw [within, h]

theorem within_eq_item {location l : Location} {i : Item}
    (h : fs.within location name = .item l i) : fs.item? (location ++ [name]) = some i := by
  cases hi : fs.item? (location ++ [name]) with
  | none =>
    rw [within_of_none hi] at h
    cases h
  | some j =>
    rw [within_of_item hi] at h
    cases h
    rfl

theorem within_eq_vacant {location l : Location} (h : fs.within location name = .vacant l) :
    l = location ++ [name] := by
  cases hi : fs.item? (location ++ [name]) with
  | none =>
    rw [within_of_none hi] at h
    cases h
    rfl
  | some j =>
    rw [within_of_item hi] at h
    cases h

/-- What a name leads to from where the names in front of it have led. -/
def enter (fs : FileSystem) (name : String) : Target → Except FileFault Target
  | .item location .directory => .ok (fs.within location name)
  | .item _ _ => .error .notDirectory
  | .vacant _ => .error .notFound

/-- **A walk to a plain name** goes into what the walk along the names in front of it has led to. -/
theorem walk_concat (h : Path.Plain name) (location : Location) (names : List String) :
    fs.walk location (names ++ [name]) = fs.walk location names >>= fs.enter name := by
  induction names generalizing location with
  | nil =>
    -- the name is the last one of the path, so it need not be there
    rw [List.nil_append, walk, walk]
    cases hi : fs.item? location with
    | none => rfl
    | some i =>
      cases i with
      | file n => rfl
      | full => rfl
      | directory =>
        simp only [if_neg h.ne_dot, if_neg h.ne_up, if_neg (Nat.not_lt.2 h.short)]
        change _ = Except.ok (fs.within location name)
        cases hi : fs.item? (location ++ [name]) with
        | none =>
          rw [within_of_none hi]
          rfl
        | some i => rw [within_of_item hi, Option.isSome_some, if_pos rfl, walk, hi]
  | cons first names ih =>
    rw [List.cons_append, walk, walk]
    cases fs.item? location with
    | none => rfl
    | some i =>
      cases i with
      | file n => rfl
      | full => rfl
      | directory =>
        -- with the name behind it, no other one is the last one
        have hmore : names ++ [name] ≠ [] := List.concat_ne_nil name names
        simp only [if_neg hmore]
        split_ifs with hdot hup hlong hsome
        · exact ih location
        · exact ih location.dropLast
        · rfl
        · exact ih (location ++ [first])
        · -- a free name is no directory
          rfl
        · rfl

theorem enter_eq_ok_iff {walked : Except FileFault Target} {t : Target} :
    walked >>= fs.enter name = .ok t ↔
      ∃ location, walked = .ok (.item location .directory) ∧ t = fs.within location name := by
  constructor
  · intro h
    match walked, h with
    | .ok (.item location .directory), h => exact ⟨location, rfl, (Except.ok.inj h).symm⟩
  · rintro ⟨location, rfl, rfl⟩
    rfl

/-- The names of a path lead to a directory. -/
def LeadsTo (fs : FileSystem) (path : String) (location : Location) : Prop :=
  fs.walk (if Path.isAbsolute path then [] else fs.here) (Path.names path) =
    .ok (.item location .directory)

/-- A path to a directory leads to it. -/
theorem leadsTo_of_resolve {location : Location}
    (h : fs.resolve directory = .ok (.item location .directory)) : fs.LeadsTo directory location :=
  (resolve_eq_ok_iff.1 h).2.2.2

theorem LeadsTo.unique {location location' : Location} (h : fs.LeadsTo directory location)
    (h' : fs.LeadsTo directory location') : location = location' := by
  rw [LeadsTo, h] at h'
  cases h'
  rfl

theorem Extends.leadsTo {fs' : FileSystem} (h : fs.Extends fs') {location : Location}
    (hpath : fs.LeadsTo directory location) : fs'.LeadsTo directory location := by
  rw [LeadsTo, h.here_eq]
  exact h.walk_item hpath

/-- **The path of a file in a directory** leads into the directory. -/
theorem resolve_join_iff (h : Path.Plain name) {t : Target} :
    fs.resolve (Path.join directory name) = .ok t ↔
      (Path.join directory name ≠ "" ∧ (Path.join directory name).toList.contains '\x00' = false ∧
        byteLength (Path.join directory name) < tooLongPath) ∧
      ∃ location, fs.LeadsTo directory location ∧ t = fs.within location name := by
  rw [resolve_eq_ok_iff, Path.isAbsolute_join h, Path.names_join h, walk_concat h, enter_eq_ok_iff]
  simp only [LeadsTo, and_assoc]

/-- **A directory in which a file is found** is found itself. The empty path is none of a directory. -/
theorem resolve_of_join (h : Path.Plain name) (hempty : directory ≠ "") {t : Target}
    (hpath : fs.resolve (Path.join directory name) = .ok t) :
    ∃ location, fs.resolve directory = .ok (.item location .directory) := by
  obtain ⟨⟨-, hnul, hlong⟩, location, hleads, -⟩ := (resolve_join_iff h).1 hpath
  -- a shorter path is no worse
  obtain ⟨behind, hbehind⟩ := h.exists_join_eq directory
  have hnul' : directory.toList.contains '\x00' = false := by
    rw [hbehind, List.contains_append, Bool.or_eq_false_iff] at hnul
    exact hnul.1
  have hlong' : byteLength directory < tooLongPath := by
    unfold byteLength Bytes.ofText at hlong ⊢
    rw [hbehind, Bytes.ofChars_append, List.length_append] at hlong
    omega
  exact ⟨location, resolve_eq_ok_iff.2 ⟨hempty, hnul', hlong', hleads⟩⟩

/-- A file or a directory is there at such a path iff the path leads to it. -/
theorem exists?_join_iff (h : Path.Plain name) :
    fs.exists? (Path.join directory name) = true ↔
      ∃ location i, fs.resolve (Path.join directory name) = .ok (.item location i) := by
  rw [exists?, find, Path.endsWithSlash_join h]
  split
  · next heq => simp [heq, Except.toBool]
  · next heq => simp [heq, Except.toBool]
  · next heq => simp [heq, Except.toBool]
  · next heq => simp [heq, Except.toBool]

end FileSystem

end BlockLedger
