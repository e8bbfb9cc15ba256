import BlockLedger.Proofs.Command.Ready

/-!
# Setups that fail

Setting up a node is a row of steps, and each of them can fail, for what lies in the files or for
what befalls it (`FileSystem.mishaps`). Up to the one that writes the settings nothing but
directories is made (`Run.deepens_makeHome`), so a failure there leaves every file as it was.

From then on a failure leaves something behind (`Run.Leaves`), since nobody takes the settings back.

* Writing the settings does away with what stood there before anything new is written. If it fails
  half-way, a front of the new settings is left (`Run.leaves_of_attemptSave_error`).
* Opening the journal comes behind it. If that fails, the home looks like that of a node that has
  been set up (`Run.leaves_of_attemptOpen_error`). The journal itself may be there by then.

`Invocation.run_init_failed` says so for every state of the files and all that may befall them.
Files are looked at by their locations, as a path may lead somewhere only once directories have been
made.
-/

namespace BlockLedger

open FileSystem

/-- The bytes of the settings of a new node. -/
def Settings.bytesFor (limit : Nat) : Bytes := Bytes.ofText (Settings.ofLimit limit).render

/-- The text of settings is a row of complete lines. -/
theorem Settings.complete_bytesFor (limit : Nat) : Complete (bytesFor limit) := by
  have hfeed : Bytes.ofChars "\n".toList = [lineFeed] := by decide
  unfold bytesFor render Bytes.ofText
  simp only [String.toList_append, Bytes.ofChars_append, hfeed]
  unfold Complete
  exact .inr ⟨_, rfl⟩

namespace Run

variable {fs fs' : FileSystem} {home : String} {limit : Nat} {force : Bool}

/-! ### Homes with settings -/

/-- The home directory in which settings are found is there already. -/
theorem makeHome_of_find {c : Nat} (hfind : fs.find (Settings.path home) = .ok (.file c)) :
    makeHome fs home = (.ok (), fs) := by
  by_cases hempty : home = ""
  · -- the directory one is in has an empty path, and making it does nothing
    subst hempty
    rw [makeHome, attemptDirectories, if_pos rfl, ite_self]
  · obtain ⟨-, place, hplace⟩ := find_eq_file_iff.1 hfind
    obtain ⟨location, hhome⟩ := resolve_of_join Settings.plain_fileName hempty hplace
    exact makeHome_of_resolve hhome

/-- **Where settings are found** no node is set up unless by force, whatever they hold. -/
theorem init_of_find {c : Nat} (hfind : fs.find (Settings.path home) = .ok (.file c)) (limit : Nat) :
    ∃ f, init fs home limit false = fail fs f := by
  have hoccupied : ∃ f, occupied? fs home false = some f := by
    rw [occupied?, Settings.present_of_find hfind, if_neg (by decide)]
    split
    · exact ⟨_, rfl⟩
    · exact ⟨_, rfl⟩
  obtain ⟨f, hf⟩ := hoccupied
  refine ⟨f, ?_⟩
  rw [init, makeHome_of_find hfind]
  simp only [hf]

/-- Where they can be read, it is said that there is a node already. -/
theorem init_of_load {c : Nat} {s : Settings}
    (hfind : fs.find (Settings.path home) = .ok (.file c)) (hload : Settings.load fs home = .ok s)
    (limit : Nat) : init fs home limit false = fail fs (.alreadyInitialized home) := by
  have hoccupied : occupied? fs home false = some (.alreadyInitialized home) := by
    simp [occupied?, Settings.present_of_find hfind, hload]
  rw [init, makeHome_of_find hfind]
  simp only [hoccupied]

/-- Where nothing is to be overwritten, there are no settings. -/
theorem not_find_of_occupied?_eq_none (h : occupied? fs home false = none) (c : Nat) :
    fs.find (Settings.path home) ≠ .ok (.file c) := by
  intro hfind
  unfold occupied? at h
  rw [Settings.present_of_find hfind, if_neg (by decide)] at h
  split at h
  · cases h
  · cases h

/-! ### What is left behind -/

/-- **The settings hold the given bytes** in a file at a location. Without force there was no such
file. -/
structure Rewritten (home : String) (force : Bool) (bytes : Bytes) (fs fs' : FileSystem)
    (place : Location) (n : Nat) : Prop where
  leads : fs'.resolve (Settings.path home) = .ok (.item place (.file n))
  holds : fs'.bytesAt? place = some bytes
  fresh : force = false → fs.bytesAt? place = none

/-- **What a setup that has failed leaves behind.**

* `nothing`: every file is as it was.
* `front`: writing the settings has been cut short by what has befallen it. The first of their bytes
  stand there, no other file has changed, and from then on no node is set up in the home unless by
  force.
* `settings`: the journal could not be opened. The settings stand there, and the home counts as that
  of a node. No other file has changed, but for the journal's own if something has befallen opening
  that.

In the last two cases the settings that stood there before are lost. -/
inductive Leaves (home : String) (limit : Nat) (force : Bool) (fs : FileSystem) :
    Failure → FileSystem → Prop where
  | nothing {f : Failure} {fs' : FileSystem} (hearly : ∀ e, f ≠ .journal e)
      (hsame : ∀ location, fs'.bytesAt? location = fs.bytesAt? location) :
      Leaves home limit force fs f fs'
  | front {m : Mishap} {fs' : FileSystem} {place : Location} {n : Nat}
      (hbefell : some m ∈ fs.mishaps) (hundo : m.undo ≠ .done)
      (hshort : m.written < (Settings.bytesFor limit).length)
      (hsettings : Rewritten home force ((Settings.bytesFor limit).take m.written) fs fs' place n)
      (hothers : ∀ location, fs'.item? location ≠ some (.file n) →
        fs'.bytesAt? location = fs.bytesAt? location)
      (hrefused : ∀ again, ∃ f, init fs' home again false = fail fs' f) :
      Leaves home limit force fs (.settings (.unwritable (Settings.path home) m.cause)) fs'
  | settings {e : JournalFault} {fs' : FileSystem} {place : Location} {n : Nat}
      (hsettings : Rewritten home force (Settings.bytesFor limit) fs fs' place n)
      (hothers : ∀ location, fs'.item? location ≠ some (.file n) →
        fs'.bytesAt? location = fs.bytesAt? location ∨
          ∃ m, some m ∈ fs.mishaps ∧ e = .files (Settings.standard.journalPath home) m.cause ∧
            Journal.Readied (Settings.standard.journalPath home) fs fs' location)
      (hrefused : ∀ again, init fs' home again false = fail fs' (.alreadyInitialized home)) :
      Leaves home limit force fs (.journal e) fs'

theorem Rewritten.of_same {before : FileSystem} {bytes : Bytes} {place : Location} {n : Nat}
    (h : Rewritten home force bytes before fs' place n)
    (hsame : ∀ location, before.bytesAt? location = fs.bytesAt? location) :
    Rewritten home force bytes fs fs' place n where
  leads := h.leads
  holds := h.holds
  fresh hforce := by
    rw [← hsame]
    exact h.fresh hforce

/-- **Settings that are written** where none are to be overwritten stand in their file, and no other
file changes. -/
theorem rewritten_of_write {bytes : Bytes} (hsound : fs.Sound)
    (hfree : force = false → ∀ c, fs.find (Settings.path home) ≠ .ok (.file c))
    (hwrite : fs.write (Settings.path home) bytes = .ok fs') :
    (bytes = [] ∧ fs' = fs) ∨
      ∃ place n, Rewritten home force bytes fs fs' place n ∧
        fs'.find (Settings.path home) = .ok (.file n) ∧ Touches n fs fs' ∧
        ∀ location, fs'.item? location ≠ some (.file n) →
          fs'.bytesAt? location = fs.bytesAt? location := by
  refine (write_cases hsound hwrite).imp_right ?_
  rintro ⟨n, hfind, hbytes, htouches, hfile⟩
  obtain ⟨-, place, hplace⟩ := find_eq_file_iff.1 hfind
  have hitem : fs'.item? place = some (.file n) := item?_of_resolve hplace
  refine ⟨place, n, ⟨hplace, bytesAt?_eq_some_iff.2 ⟨n, hitem, hbytes⟩, fun hforce => ?_⟩, hfind,
    htouches, fun location => bytesAt?_of_write hwrite htouches hplace⟩
  -- without force no settings were found, so the file that has been written is a new one
  obtain rfl := hfile.resolve_left (hfree hforce n)
  refine Option.eq_none_iff_forall_not_mem.2 fun old hold => ?_
  obtain ⟨m, hm, -⟩ := bytesAt?_eq_some_iff.1 hold
  have hsame := htouches.leads.item hm
  rw [hitem] at hsame
  cases hsame
  exact Nat.lt_irrefl _ (hsound.lt_of_item? hm)

/-- **Before the settings are written** every file is as it was, without force there are no settings,
and nothing is to befall what is done then but what was to befall it before. -/
theorem before_attemptSave {made : FileSystem} (hsound : fs.Sound)
    (hmade : makeHome fs home = (.ok (), made)) (hfree : occupied? made home force = none) :
    made.takeMishap.2.Sound ∧
      (∀ location, made.takeMishap.2.bytesAt? location = fs.bytesAt? location) ∧
      (force = false → ∀ c, made.takeMishap.2.find (Settings.path home) ≠ .ok (.file c)) ∧
      made.mishaps <:+ fs.mishaps := by
  obtain ⟨later, halike, hsuffix, hdeepens⟩ := deepens_makeHome fs home
  have hmadeSound := sound_makeHome hsound home
  rw [hmade] at hdeepens hmadeSound
  have htaken := alike_takeMishap made
  refine ⟨htaken.sound hmadeSound, fun location => ?_, fun hforce c hfind => ?_, ?_⟩
  · rw [htaken.bytesAt?_eq, hdeepens.bytesAt?_eq, halike.bytesAt?_eq]
  · subst hforce
    exact not_find_of_occupied?_eq_none hfree c (htaken.symm.leads.find_file hfind)
  · rw [hdeepens.mishaps_eq]
    exact hsuffix

/-- **Where the settings could not be written**, a front of them may have been. -/
theorem leaves_of_attemptSave_error {made : FileSystem} {e : Settings.Fault} (hsound : fs.Sound)
    (hmade : makeHome fs home = (.ok (), made)) (hfree : occupied? made home force = none)
    (hsave : Settings.attemptSave made home (.ofLimit limit) = (.error e, fs')) :
    Leaves home limit force fs (.settings e) fs' := by
  obtain ⟨hready, hsame, hnone, hsuffix⟩ := before_attemptSave hsound hmade hfree
  unfold Settings.attemptSave at hsave
  split_ifs at hsave
  · cases hsave
    refine .nothing (fun _ => nofun) fun location => ?_
    rw [← hsame, (alike_takeMishap _).bytesAt?_eq]
  split at hsave
  · next cause partly hattempt =>
    cases hsave
    rcases attemptWrite_eq_error hattempt with rfl | ⟨m, hm, rfl, hundo, hshort, hwrite⟩
    · exact .nothing (fun _ => nofun) hsame
    rcases rewritten_of_write hready hnone hwrite with
      ⟨-, rfl⟩ | ⟨place, n, hsettings, hfind, -, hothers⟩
    · exact .nothing (fun _ => nofun) hsame
    · refine .front (hsuffix.mem (mem_mishaps_of_takeMishap hm)) hundo hshort
        (hsettings.of_same hsame) (fun location hother => ?_) (init_of_find hfind)
      rw [hothers location hother, hsame]
  · cases hsave

/-- **Where the journal could not be opened**, the settings stay. -/
theorem leaves_of_attemptOpen_error {made written : FileSystem} {e : JournalFault}
    (hsound : fs.Sound) (hmade : makeHome fs home = (.ok (), made))
    (hfree : occupied? made home force = none)
    (hsave : Settings.attemptSave made home (.ofLimit limit) = (.ok (), written))
    (hopen : Journal.attemptOpen written (Settings.standard.journalPath home) = (.error e, fs')) :
    Leaves home limit force fs (.journal e) fs' := by
  obtain ⟨hready, hsame, hnone, hsuffix⟩ := before_attemptSave hsound hmade hfree
  obtain ⟨hfits, hwrite⟩ := Settings.save_eq_ok_iff.1 (Settings.attemptSave_eq_ok hsave)
  have htext : Settings.bytesFor limit ≠ [] :=
    Bytes.ofText_ne_nil (Settings.render_ne_empty limit)
  obtain ⟨place, n, hsettings, hfind, htouches, hothers⟩ :=
    (rewritten_of_write hready hnone hwrite).resolve_left fun hempty => htext hempty.1
  obtain ⟨hleads, hopened⟩ := Journal.bytesAt?_of_attemptOpen_error (hready.write hwrite) hopen
  -- what befalls opening the journal was to befall an attempt from the beginning
  have hmishaps : written.mishaps <:+ fs.mishaps := by
    rw [htouches.mishaps_eq]
    exact (mishaps_takeMishap_suffix made).trans hsuffix
  -- nothing of the settings is cut off, even if they are the journal as well
  have hholds : fs'.bytesAt? place = some (Settings.bytesFor limit) := by
    rcases hopened place with hsamely | ⟨-, -, -, -, -, -, hcut⟩
    · exact hsamely.trans hsettings.holds
    · rw [hcut, hsettings.holds]
      exact congrArg some (Settings.complete_bytesFor limit).completePart_eq
  have hlater : fs'.resolve (Settings.path home) = .ok (.item place (.file n)) :=
    hleads.resolve_item hsettings.leads
  have hload : Settings.load fs' home = .ok (.ofLimit limit) := by
    rw [bytesAt?_of_item (item?_of_resolve hlater), Option.some.injEq] at hholds
    exact Settings.load_of_bytes hfits (hleads.find_file hfind) hholds
  refine .settings ⟨hlater, hholds, fun hforce => ?_⟩ (fun location hother => ?_)
    (init_of_load (hleads.find_file hfind) hload)
  · rw [← hsame]
    exact hsettings.fresh hforce
  · have hbefore : written.bytesAt? location = fs.bytesAt? location :=
      (hothers location fun hfile => hother (hleads.item hfile)).trans (hsame location)
    have hor := hopened location
    rw [Journal.Readied, hbefore] at hor
    exact hor.imp_right fun hjournal => hjournal.imp fun m => And.imp_left fun hm => hmishaps.mem hm

end Run

/-- **A setup that has failed** has left every file as it was, or the settings hold something new: a
front of their text if writing them has been cut short, and all of it if the journal could not be
opened. -/
theorem Invocation.run_init_failed {fs : FileSystem} {i : Invocation} {limit : Nat} {force : Bool}
    (hsound : fs.Sound) (hinit : i.command = .init limit force) (now : Instant)
    (hfail : (i.run fs now).ending.exitCode ≠ 0) :
    ∃ f, (i.run fs now).ending = .failed f ∧
      Run.Leaves i.home limit force fs f (i.run fs now).files := by
  have hrun : i.run fs now = Run.init fs i.home limit force := by
    rw [Invocation.run, hinit]
  rw [hrun] at hfail ⊢
  rcases Run.init_cases fs i.home limit force with
    ⟨f, hearly, hended⟩ | ⟨made, hmade, hfree, ⟨e, partly, hsave, hended⟩ | ⟨written, hsave,
      ⟨e, files, hopen, hended⟩ | ⟨j, opened, -, hended⟩⟩⟩
  · -- nothing has been written yet
    obtain ⟨later, halike, -, hdeepens⟩ := Run.deepens_makeHome fs i.home
    rw [hended]
    exact ⟨f, rfl, .nothing hearly fun location =>
      (hdeepens.bytesAt?_eq location).trans (halike.bytesAt?_eq location)⟩
  · rw [hended]
    exact ⟨.settings e, rfl, Run.leaves_of_attemptSave_error hsound hmade hfree hsave⟩
  · rw [hended]
    exact ⟨.journal e, rfl, Run.leaves_of_attemptOpen_error hsound hmade hfree hsave hopen⟩
  · -- the node has been set up
    rw [hended] at hfail
    exact absurd rfl hfail

/-- The disk is full when the settings of a node are to be written over by force. The old ones are
lost, and the first bytes of the new ones stand there. -/
theorem Invocation.run_init_failed_cut :
    let place := ["work", "node", "config.toml"]
    let node := (FileSystem.fresh.makeDirectories "node").2.addFile place
    let start : FileSystem :=
      { node.setBytes (.file 0) (Settings.bytesFor 4) with
        mishaps := [some ⟨5, .noSpace, .failed⟩] }
    let i : Invocation := ⟨"node", .json, .init 9 true⟩
    let ended := i.run start ⟨0, 0⟩
    let f : Failure := .settings (.unwritable "node/config.toml" .noSpace)
    start.Sound ∧ ended.ending.exitCode ≠ 0 ∧ ended.ending = .failed f ∧
      start.bytesAt? place = some (Settings.bytesFor 4) ∧
      ended.files.bytesAt? place = some (Bytes.ofText "[serv") ∧
      Run.Leaves "node" 9 true start f ended.files := by
  intro place node start i ended f
  have hnode : node.Sound := (sound_fresh.makeDirectoriesAlong _).addFile _
  have hsound : start.Sound := hnode.setBytes _ _
  have hfail : ended.ending.exitCode ≠ 0 := by decide +kernel
  have hended : ended.ending = .failed f := by decide +kernel
  obtain ⟨f', hf, hleaves⟩ := Invocation.run_init_failed (i := i) hsound rfl ⟨0, 0⟩ hfail
  rw [hended] at hf
  cases hf
  exact ⟨hsound, hfail, hended, by decide +kernel, by decide +kernel, hleaves⟩

/-- **A home that is left looking like that of a node.** A directory stands where the journal is to
be, and nothing else does. Setting up a node fails, and settings stand there that were not there
before. -/
theorem Invocation.run_init_leaves_settings :
    let start := (FileSystem.fresh.makeDirectories "node/blocks.jsonl").2
    ∃ i : Invocation,
      (∀ s, Invocation.parse s ["--home", "node", "--output-format", "json", "init"] = .ok i) ∧
      (i.run start ⟨0, 0⟩).ending.exitCode = 1 ∧
      start.bytesAt? ["work", "node", "config.toml"] = none ∧
      (i.run start ⟨0, 0⟩).files.bytesAt? ["work", "node", "config.toml"] =
        some (Bytes.ofText (Settings.ofLimit defaultProofLimit).render) := by
  intro start
  refine ⟨⟨"node", .json, .init defaultProofLimit false⟩, fun s => ?_, ?_, ?_, ?_⟩
  · rfl
  · decide +kernel
  · decide +kernel
  · decide +kernel

end BlockLedger
