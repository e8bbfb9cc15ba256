import BlockLedger.Command.Run
import BlockLedger.Proofs.Files.Paths
import BlockLedger.Proofs.Journal.Created
import BlockLedger.Proofs.Ledger.Restart
import BlockLedger.Proofs.Settings.RoundTrip

/-!
# Nodes that are ready

Every command on a node opens its ledger anew, from what the commands before it have left in two
files. A node is ready (`Run.Ready`) if its settings are read, its journal is that of a recorded
ledger, and the two files are different ones. Then each command goes on with that ledger and with
the files as they are (`Run.Ready.withLedger_eq`).

Setting up a node in a bare home makes it ready (`Run.ready_of_init`): the journal is a new file,
since its name in the home directory is not that of the settings. A node stays ready when a block is
submitted, whether it is accepted or not (`Run.Ready.submit`), and when a file is written that is
neither of its own (`Run.Ready.touch`). Submitting touches the journal and no other file.
-/

namespace BlockLedger

/-! ### The names of a node's files -/

theorem Settings.plain_fileName : Path.Plain Settings.fileName where
  ne_empty := by decide
  slash := by decide
  ne_dot := by decide
  ne_up := by decide
  short := by decide

theorem Settings.plain_journal : Path.Plain Settings.standard.journal where
  ne_empty := by decide
  slash := by decide
  ne_dot := by decide
  ne_up := by decide
  short := by decide

namespace Settings

open FileSystem

variable {fs fs' : FileSystem} {home : String}

theorem present_of_find {c : Nat} (hfind : fs.find (path home) = .ok (.file c)) :
    present fs home = true := by
  rw [present, isFile, hfind]

/-- Settings are read again as long as their file is not touched. -/
theorem load_of_touches {c m : Nat} (hfind : fs.find (path home) = .ok (.file c))
    (htouches : Touches m fs fs') (hne : c ≠ m) : load fs' home = load fs home := by
  rw [load, load, readText, readText, read_of_find (htouches.leads.find_file hfind),
    read_of_find hfind, htouches.others c hne]

/-- The text of the settings of a new node is read back. -/
theorem load_of_bytes {limit c : Nat} (hfits : limit < signedLimit)
    (hfind : fs.find (path home) = .ok (.file c))
    (hbytes : fs.bytesOf (.file c) = Bytes.ofText (ofLimit limit).render) :
    load fs home = .ok (ofLimit limit) := by
  rw [load, readText, read_of_find hfind, hbytes]
  simp only [Bytes.text?_ofText, parse_render hfits]

/-- **Settings that have been saved** have been written, and TOML can hold their limit. -/
theorem save_eq_ok_iff {s : Settings} :
    save fs home s = .ok fs' ↔
      s.limit < signedLimit ∧ fs.write (path home) (Bytes.ofText s.render) = .ok fs' := by
  rw [save]
  split_ifs with hlimit
  · exact iff_of_false nofun fun h => Nat.not_lt_of_le hlimit h.1
  · rw [and_iff_right (Nat.lt_of_not_le hlimit)]
    split
    · next hwrite => simp [hwrite]
    · next hwrite => rw [hwrite, Except.ok.injEq, Except.ok.injEq]

/-- **Settings of a new node that have been saved** are read back. -/
theorem load_of_save {limit : Nat} (hsound : fs.Sound)
    (hsave : save fs home (ofLimit limit) = .ok fs') :
    load fs' home = .ok (ofLimit limit) ∧ fs'.Sound ∧
      fs.write (path home) (Bytes.ofText (ofLimit limit).render) = .ok fs' ∧
      ∃ c, fs'.find (path home) = .ok (.file c) ∧ Touches c fs fs' := by
  obtain ⟨hfits, hwrite⟩ := save_eq_ok_iff.1 hsave
  have htext := Bytes.ofText_ne_nil (render_ne_empty limit)
  obtain ⟨c, hfind, hbytes, htouches, -⟩ := write_eq_ok hsound htext hwrite
  exact ⟨load_of_bytes hfits hfind hbytes, hsound.write hwrite, hwrite, c, hfind, htouches⟩

/-- **An attempt to write settings** that does not fail has written them. -/
theorem attemptSave_eq_ok {s : Settings} (h : attemptSave fs home s = (.ok (), fs')) :
    save fs.takeMishap.2 home s = .ok fs' := by
  unfold attemptSave at h
  split_ifs at h with hlimit
  · cases h
  split at h
  · cases h
  · next hattempt =>
    cases h
    rw [save, if_neg hlimit, attemptWrite_eq_ok hattempt]

end Settings

namespace Run

open FileSystem

variable {fs fs' : FileSystem} {home : String} {l : Ledger} {c n : Nat}

/-- **A node is ready** with a ledger, its settings in one file and its journal in another one. -/
structure Ready (home : String) (l : Ledger) (c n : Nat) (fs : FileSystem) : Prop where
  sound : fs.Sound
  calm : fs.mishaps = []
  settings : fs.find (Settings.path home) = .ok (.file c)
  loads : Settings.load fs home = .ok (.ofLimit l.limit)
  journal : fs.find (Settings.standard.journalPath home) = .ok (.file n)
  apart : c ≠ n
  recorded : Session.Recorded (Settings.standard.journalPath home) ⟨l, fs⟩
  opened : l.snapshot.generation = 0

/-- **What is accepted**: a block whose payload is read, and whose identifier is neither empty nor
that of a block that is held. -/
def Acceptable (l : Ledger) (fs : FileSystem) (s : Submission) : Prop :=
  (∃ bytes, payload fs s.payload = .ok bytes) ∧ s.id ≠ "" ∧ s.id ∉ l.blocks.map (·.id)

namespace Ready

/-! ### Opening the ledger -/

theorem start_eq (h : Ready home l c n fs) :
    Session.start l.limit (Settings.standard.journalPath home) fs = .ok ⟨l, fs⟩ := by
  -- a ledger that is opened counts its generations from zero, as this one does
  have hself : Session.withGeneration ⟨l, fs⟩ 0 = ⟨l, fs⟩ := by
    rw [← h.opened]
    rfl
  rw [← hself]
  exact h.recorded.start_eq

/-- **The ledger of a node that is ready** is opened, and nothing changes. -/
theorem openLedger_eq (h : Ready home l c n fs) : openLedger fs home = (.ok l, fs) := by
  have hpresent := Settings.present_of_find h.settings
  have hpath : (Settings.ofLimit l.limit).journalPath home = Settings.standard.journalPath home := rfl
  have hlimit : (Settings.ofLimit l.limit).limit = l.limit := rfl
  obtain ⟨j, hopen, hledger⟩ := Session.exists_of_start h.start_eq
  simp only at hopen hledger
  rw [openLedger, hpresent, h.loads]
  simp [hpath, hlimit, Journal.attemptOpen_of_calm h.calm, hopen, hledger]

theorem withLedger_eq (h : Ready home l c n fs) (go : Ledger → FileSystem → Run) :
    withLedger fs home go = go l fs := by
  rw [withLedger, h.openLedger_eq]

/-- The journal of the ledger is open in the file of the journal. -/
theorem exists_journal (h : Ready home l c n fs) :
    ∃ j, l.journal = some j ∧ j.path = Settings.standard.journalPath home ∧ j.handle = .file n ∧
      j.Settled fs ∧ j.load fs = .ok l.blocks := by
  obtain ⟨j, hjournal, hpath, hsettled, hload⟩ := h.recorded.journal
  -- the path leads to one place only
  obtain ⟨-, place, hplace⟩ := find_eq_file_iff.1 h.journal
  obtain ⟨place', hplace'⟩ := hsettled.place
  rw [hpath, hplace] at hplace'
  refine ⟨j, hjournal, hpath, ?_, hsettled, hload⟩
  cases hhandle : j.handle with
  | file m =>
    rw [hhandle] at hplace'
    cases hplace'
    rfl
  | full =>
    rw [hhandle] at hplace'
    cases hplace'

/-! ### Touching a file -/

/-- **A node stays ready** when any file but that of its settings has been touched, if a ledger with
the same limit is recorded then. -/
theorem of_touches {l' : Ledger} {m : Nat} (h : Ready home l c n fs) (htouches : Touches m fs fs')
    (hsound : fs'.Sound) (hc : c ≠ m)
    (hrecorded : Session.Recorded (Settings.standard.journalPath home) ⟨l', fs'⟩)
    (hlimit : l'.limit = l.limit) (hopened : l'.snapshot.generation = 0) :
    Ready home l' c n fs' where
  sound := hsound
  calm := htouches.mishaps_eq.trans h.calm
  settings := htouches.leads.find_file h.settings
  loads := by rw [Settings.load_of_touches h.settings htouches hc, h.loads, hlimit]
  journal := htouches.leads.find_file h.journal
  apart := h.apart
  recorded := hrecorded
  opened := hopened

/-- **A node stays ready** when a file is written that is neither of its own. -/
theorem touch {m : Nat} (h : Ready home l c n fs) (htouches : Touches m fs fs') (hsound : fs'.Sound)
    (hc : m ≠ c) (hn : m ≠ n) : Ready home l c n fs' := by
  obtain ⟨j, hjournal, hpath, hhandle, hsettled, hload⟩ := h.exists_journal
  have hbytes : fs'.bytesOf j.handle = fs.bytesOf j.handle := by
    rw [hhandle]
    exact htouches.others n hn.symm
  have hsettled' : j.Settled fs' := by
    refine hsettled.of_extends htouches.leads (fun k hk => ?_) hbytes
    rw [hhandle] at hk
    cases hk
    exact hsound.lt_of_find (htouches.leads.find_file h.journal)
  have hload' : j.load fs' = .ok l.blocks := by
    rw [hsettled'.load_eq_ok_iff, hbytes]
    exact hsettled.load_eq_ok_iff.1 hload
  have hrecorded : Session.Recorded (Settings.standard.journalPath home) ⟨l, fs'⟩ :=
    { journal := ⟨j, hjournal, hpath, hsettled', hload'⟩
      consistent := h.recorded.consistent
      known := h.recorded.known
      snapshot := h.recorded.snapshot }
  exact h.of_touches htouches hsound hc.symm hrecorded rfl h.opened

/-! ### Submitting -/

/-- A block that does not pass the check leaves all as it was, and one that does is written to the
journal and stands behind the others. -/
theorem accept_cases (h : Ready home l c n fs) (b : Block) :
    (¬ (b.id ≠ "" ∧ b.id ∉ l.blocks.map (·.id)) ∧ ∃ e, l.accept fs [b] = ⟨.error e, l, fs⟩) ∨
      ((b.id ≠ "" ∧ b.id ∉ l.blocks.map (·.id)) ∧ (∃ s, (l.accept fs [b]).result = .ok s) ∧
        Ready home ((l.accept fs [b]).ledger.withGeneration 0) c n (l.accept fs [b]).files ∧
        Touches n fs (l.accept fs [b]).files ∧ (l.accept fs [b]).ledger.limit = l.limit ∧
        (l.accept fs [b]).ledger.blocks = l.blocks ++ [b.filled]) := by
  have hpasses : (∃ vetted, l.vet [b] = .ok vetted) ↔ b.id ≠ "" ∧ b.id ∉ l.blocks.map (·.id) := by
    simp only [Ledger.vet_eq_ok_iff, ← h.recorded.known]
    simp
  cases hvet : l.vet [b] with
  | error e =>
    refine .inl ⟨fun hb => ?_, e, Ledger.accept_eq_of_vet_error hvet fs⟩
    obtain ⟨vetted, hok⟩ := hpasses.2 hb
    rw [hvet] at hok
    cases hok
  | ok vetted =>
    obtain ⟨-, -, -, rfl⟩ := Ledger.vet_eq_ok_iff.1 hvet
    obtain ⟨j, hjournal, -, hhandle, hsettled, -⟩ := h.exists_journal
    -- no append is to fail
    have hmishap : fs.nextMishap j.handle (recordsOf [b.filled]).length = (none, fs) := by
      rw [hhandle, nextMishap, takeMishap_of_calm h.calm]
    have haccept := Ledger.accept_eq_appended hjournal hvet fs
    rw [List.map_singleton, Journal.append_of_no_mishap hsettled.clean hmishap, hhandle] at haccept
    have hok : ∃ s, (l.accept fs [b]).result = .ok s := by
      rw [haccept]
      exact ⟨_, rfl⟩
    have hfiles : (l.accept fs [b]).files = fs.extend (.file n) (recordsOf [b.filled]) := by
      rw [haccept]
      rfl
    have hblocks : (l.accept fs [b]).ledger.blocks = l.blocks ++ [b.filled] := by
      rw [haccept]
      rfl
    have htouches : Touches n fs (l.accept fs [b]).files := by
      rw [hfiles]
      exact touches_setBytes fs n _
    have hsound : (l.accept fs [b]).files.Sound := by
      rw [hfiles]
      exact h.sound.setBytes (.file n) _
    have hio : ∀ cause, (l.accept fs [b]).result ≠ .error (.journal cause) := by
      obtain ⟨s, hs⟩ := hok
      intro cause hfailed
      rw [hs] at hfailed
      cases hfailed
    -- the next command finds the ledger that the journal now holds
    obtain ⟨hrecorded, hlimit⟩ := h.recorded.accept hio
    obtain ⟨hreopened, -, hgeneration⟩ := Session.recorded_of_start hsound hrecorded.start_eq
    exact .inr ⟨hpasses.1 ⟨_, hvet⟩, hok,
      h.of_touches htouches hsound h.apart hreopened hlimit hgeneration, htouches, hlimit, hblocks⟩

/-- **All that submitting can do**: it fails and leaves all as it was, or the block is accepted. -/
theorem submit_cases (h : Ready home l c n fs) (now : Instant) (s : Submission) :
    (¬ Acceptable l fs s ∧ ∃ f, Run.submit fs home now s = fail fs f) ∨
      (Acceptable l fs s ∧
        ∃ receipt l' files, Run.submit fs home now s = report files (.receipt receipt) ∧
          Ready home l' c n files ∧ Touches n fs files ∧ l'.limit = l.limit ∧
          l'.blocks.map (·.id) = l.blocks.map (·.id) ++ [s.id]) := by
  cases hpayload : payload fs s.payload with
  | error f =>
    refine .inl ⟨?_, f, by rw [Run.submit, hpayload]⟩
    rintro ⟨⟨bytes, hbytes⟩, -⟩
    rw [hpayload] at hbytes
    cases hbytes
  | ok bytes =>
    simp only [Run.submit, hpayload, h.withLedger_eq, Ledger.submit]
    rcases h.accept_cases (block s bytes now) with
      ⟨hfaulty, e, hrefused⟩ | ⟨hpasses, ⟨snapshot, hok⟩, hready, htouches, hlimit, hblocks⟩
    · rw [hrefused]
      exact .inl ⟨fun hs => hfaulty hs.2, .refused e, rfl⟩
    · have hids : (l.accept fs [block s bytes now]).ledger.blocks.map (·.id) =
          l.blocks.map (·.id) ++ [s.id] := by
        rw [hblocks, List.map_append, List.map_singleton, Block.filled_id]
        rfl
      simp only [Ledger.Outcome.map, hok]
      exact .inr ⟨⟨⟨bytes, hpayload⟩, hpasses⟩, _, _, _, rfl, hready, htouches, hlimit, hids⟩

/-- **A block is accepted** if it is acceptable, and otherwise not. -/
theorem exitCode_submit_iff (h : Ready home l c n fs) (now : Instant) (s : Submission) :
    (Run.submit fs home now s).ending.exitCode = 0 ↔ Acceptable l fs s := by
  rcases h.submit_cases now s with ⟨hnot, f, hfail⟩ | ⟨hs, receipt, l', files, hrun, -⟩
  · rw [hfail]
    exact iff_of_false nofun hnot
  · rw [hrun]
    exact iff_of_true rfl hs

/-- **A node stays ready** when a block is submitted, whether it is accepted or not. -/
theorem submit (h : Ready home l c n fs) (now : Instant) (s : Submission) :
    ∃ l', Ready home l' c n (Run.submit fs home now s).files ∧ l'.limit = l.limit ∧
      Touches n fs (Run.submit fs home now s).files ∧
      l'.blocks.map (·.id) = l.blocks.map (·.id) ++
        if (Run.submit fs home now s).ending.exitCode = 0 then [s.id] else [] := by
  rcases h.submit_cases now s with
    ⟨-, f, hfail⟩ | ⟨-, receipt, l', files, hrun, hready, htouches, hlimit, hids⟩
  · rw [hfail]
    exact ⟨l, h, rfl, .refl n fs, (List.append_nil _).symm⟩
  · rw [hrun]
    exact ⟨l', hready, hlimit, htouches, hids⟩

end Ready

/-! ### Setting up a node -/

/-- A home directory that is there is not made again. -/
theorem makeHome_of_resolve {location : Location}
    (hhome : fs.resolve home = .ok (.item location .directory)) : makeHome fs home = (.ok (), fs) := by
  have hthere : fs.exists? home = true := by
    rw [exists?, find, hhome]
    rfl
  rw [makeHome, if_pos hthere]

/-- **A bare home**: once the home directory is there, it has neither of the files of a node. -/
def Bare (fs : FileSystem) (home : String) : Prop :=
  (makeHome fs home).2.exists? (Settings.path home) = false ∧
    (makeHome fs home).2.exists? (Settings.standard.journalPath home) = false

/-- An empty directory is bare. -/
theorem bare_of_empty {location : Location} (hhome : fs.resolve home = .ok (.item location .directory))
    (hempty : ∀ name, fs.item? (location ++ [name]) = none) : Bare fs home := by
  have hmade := makeHome_of_resolve hhome
  have hnone : ∀ {name}, Path.Plain name → fs.exists? (Path.join home name) = false := by
    intro name hplain
    rw [Bool.eq_false_iff, ne_eq, exists?_join_iff hplain]
    rintro ⟨place, i, hplace⟩
    obtain ⟨-, location', hlocation, htarget⟩ := (resolve_join_iff hplain).1 hplace
    obtain rfl := (leadsTo_of_resolve hhome).unique hlocation
    have hitem := within_eq_item htarget.symm
    rw [hempty] at hitem
    cases hitem
  rw [Bare, hmade]
  exact ⟨hnone Settings.plain_fileName, hnone Settings.plain_journal⟩

/-- **Making the home directory** adds directories and nothing else, after what befalls it has been
looked up. -/
theorem deepens_makeHome (fs : FileSystem) (home : String) :
    ∃ later, fs.Alike later ∧ later.mishaps <:+ fs.mishaps ∧
      later.Deepens (makeHome fs home).2 := by
  rw [makeHome]
  split_ifs
  · exact ⟨fs, .refl fs, List.suffix_rfl, .refl fs⟩
  rw [attemptDirectories]
  split_ifs
  · exact ⟨fs, .refl fs, List.suffix_rfl, .refl fs⟩
  · exact ⟨_, alike_takeMishap fs, mishaps_takeMishap_suffix fs, deepens_makeDirectoriesWith _ _ home⟩

theorem sound_makeHome (h : fs.Sound) (home : String) : (makeHome fs home).2.Sound := by
  rw [makeHome]
  split_ifs
  · exact h
  rw [attemptDirectories]
  split_ifs
  · exact h
  · exact ((alike_takeMishap fs).sound h).makeDirectoriesWith _ home

/-- A home directory that is not to be overwritten is no matter of its journal. -/
theorem occupied?_ne_journal {force : Bool} {f : Failure} (h : occupied? fs home force = some f)
    (e : JournalFault) : f ≠ .journal e := by
  rintro rfl
  rw [occupied?] at h
  split_ifs at h
  split at h
  · cases h
  · cases h

/-- **All that setting up a node can do.** It fails before anything is written, or the home
directory is made. Then the settings are written, or that fails, and after that the journal is
opened, or that fails. -/
theorem init_cases (fs : FileSystem) (home : String) (limit : Nat) (force : Bool) :
    (∃ f, (∀ e, f ≠ .journal e) ∧ init fs home limit force = fail (makeHome fs home).2 f) ∨
      ∃ made, makeHome fs home = (.ok (), made) ∧ occupied? made home force = none ∧
        ((∃ e partly, Settings.attemptSave made home (.ofLimit limit) = (.error e, partly) ∧
            init fs home limit force = fail partly (.settings e)) ∨
          ∃ written, Settings.attemptSave made home (.ofLimit limit) = (.ok (), written) ∧
            ((∃ e files,
                Journal.attemptOpen written (Settings.standard.journalPath home) =
                  (.error e, files) ∧
                init fs home limit force = fail files (.journal e)) ∨
              ∃ j opened,
                Journal.attemptOpen written (Settings.standard.journalPath home) =
                  (.ok j, opened) ∧
                init fs home limit force = report opened (.initialized home j.path))) := by
  rw [init]
  split
  · next e made hmade =>
    rw [hmade]
    exact .inl ⟨.homeNotMade home e, fun _ => nofun, rfl⟩
  · next made hmade =>
    rw [hmade]
    split
    · next f hf => exact .inl ⟨f, occupied?_ne_journal hf, rfl⟩
    · next hfree =>
      split_ifs
      · exact .inl ⟨.zeroLimit, fun _ => nofun, rfl⟩
      · rw [furnish]
        refine .inr ⟨made, rfl, hfree, ?_⟩
        simp only
        split
        · next e partly hsave => exact .inl ⟨e, partly, hsave, rfl⟩
        · next written hsave =>
          refine .inr ⟨written, hsave, ?_⟩
          split
          · next e files hopen => exact .inl ⟨e, files, hopen, rfl⟩
          · next j opened hopen => exact .inr ⟨j, opened, hopen, rfl⟩

/-- **Where the settings of a bare home have been written**, its journal is not there, whatever
directories are made before it is opened: it has another name in the same directory. -/
theorem journal_not_there {made written ready : FileSystem} {bytes : Bytes}
    (hsettings : made.exists? (Settings.path home) = false)
    (hjournal : made.exists? (Settings.standard.journalPath home) = false)
    (hwrite : made.write (Settings.path home) bytes = .ok written) (hleads : made.Extends written)
    (hready : written.Deepens ready) {place : Location} {i : Item}
    (hplace : ready.resolve (Settings.standard.journalPath home) = .ok (.item place i)) :
    i = .directory := by
  -- the settings were not there, so their directory was
  have hvacant : ∃ l, made.resolve (Settings.path home) = .ok (.vacant l) := by
    obtain ⟨handle, opened, hopen, -⟩ := exists_openFile_of_write hwrite
    obtain ⟨-, ⟨-, l, hl⟩ | ⟨l, hl, -⟩⟩ := openFile_cases hopen
    · have hthere : made.exists? (Settings.path home) = true :=
        (exists?_join_iff Settings.plain_fileName).2 ⟨l, _, hl⟩
      rw [hsettings] at hthere
      cases hthere
    · exact ⟨l, hl⟩
  obtain ⟨l, hl⟩ := hvacant
  obtain ⟨-, directory, hdirectory, -⟩ := (resolve_join_iff Settings.plain_fileName).1 hl
  obtain ⟨hpath, directory', hdirectory', htarget⟩ :=
    (resolve_join_iff Settings.plain_journal).1 hplace
  obtain rfl : directory = directory' :=
    ((hleads.trans hready.leads).leadsTo hdirectory).unique hdirectory'
  -- what stands at the name of the journal was there before, or has been written, or has been made
  rcases hready.added _ _ (within_eq_item htarget.symm) with hwritten | hmade
  · rcases item?_of_write hwrite hwritten with hold | hother
    · -- it was not there before
      have hresolve := (resolve_join_iff Settings.plain_journal).2
        ⟨hpath, directory, hdirectory, (within_of_item hold).symm⟩
      have hthere : made.exists? (Settings.standard.journalPath home) = true :=
        (exists?_join_iff Settings.plain_journal).2 ⟨_, i, hresolve⟩
      rw [hjournal] at hthere
      cases hthere
    · -- the file that has been written has another name
      obtain ⟨-, directory', -, htarget'⟩ := (resolve_join_iff Settings.plain_fileName).1 hother
      have hnames := within_eq_vacant htarget'.symm
      have hlast : [Settings.standard.journal] = [Settings.fileName] :=
        (List.append_inj' hnames rfl).2
      exact absurd hlast (by decide)
  · exact hmade

/-- **A node that has been set up in a bare home** is ready, with an empty ledger. -/
theorem ready_of_init (hsound : fs.Sound) (hcalm : fs.mishaps = []) (hbare : Bare fs home)
    {limit : Nat} {force : Bool} (hok : (init fs home limit force).ending.exitCode = 0) :
    ∃ l c n, Ready home l c n (init fs home limit force).files ∧ l.limit = limit ∧ l.blocks = [] := by
  rcases init_cases fs home limit force with
    ⟨f, -, hfail⟩ | ⟨made, hmade, -, ⟨e, partly, -, hfail⟩ | ⟨written, hattempt,
      ⟨e, files, -, hfail⟩ | ⟨j, opened, hopen, hrun⟩⟩⟩
  · rw [hfail] at hok
    cases hok
  · rw [hfail] at hok
    cases hok
  · rw [hfail] at hok
    cases hok
  obtain ⟨hnosettings, hnojournal⟩ := hbare
  obtain ⟨later, halike, hsuffix, hdeepens⟩ := deepens_makeHome fs home
  -- nothing befalls the attempts
  rw [hcalm, List.suffix_nil] at hsuffix
  obtain rfl : later = fs := halike.eq_of_mishaps (hsuffix.trans hcalm.symm)
  have hmadeSound := sound_makeHome hsound home
  simp only [hmade] at hnosettings hnojournal hdeepens hmadeSound
  have hsave := Settings.attemptSave_eq_ok hattempt
  rw [takeMishap_of_calm (hdeepens.mishaps_eq.trans hcalm)] at hsave
  obtain ⟨hload, hwrittenSound, hwrite, c, hsettings, hwritten⟩ :=
    Settings.load_of_save hmadeSound hsave
  have hwrittenCalm : written.mishaps = [] := by
    rw [hwritten.mishaps_eq, hdeepens.mishaps_eq, hcalm]
  rw [Journal.attemptOpen_of_calm hwrittenCalm] at hopen
  have hc : c < written.contents.length := hwrittenSound.lt_of_find hsettings
  -- the journal is a new file
  obtain ⟨⟨hpath, hsettled, hempty⟩, hhandle, hopened, hopenedSound⟩ :=
    Journal.openAt_new hwrittenSound hopen fun ready hready place i hplace =>
      journal_not_there hnosettings hnojournal hwrite hwritten.leads hready hplace
  have hjournal : opened.find (Settings.standard.journalPath home) =
      .ok (.file written.contents.length) := by
    obtain ⟨place, hplace⟩ := hsettled.place
    have hslash := hsettled.slash
    rw [hpath] at hslash hplace
    rw [hhandle] at hplace
    exact find_eq_file_iff.2 ⟨hslash, place, hplace⟩
  -- opening it again gives the empty ledger
  have hreopen : Journal.openAt opened (Settings.standard.journalPath home) = (.ok j, opened) := by
    rw [← hpath]
    exact hsettled.openAt_eq
  have hstart : Session.start limit (Settings.standard.journalPath home) opened =
      .ok ⟨.ofBlocks limit [] (some j), opened⟩ :=
    Session.start_eq_of_load hreopen hempty List.nodup_nil
  obtain ⟨hrecorded, -, hgeneration⟩ := Session.recorded_of_start hopenedSound hstart
  refine ⟨.ofBlocks limit [] (some j), c, written.contents.length, ?_, rfl, rfl⟩
  rw [hrun]
  exact
    { sound := hopenedSound
      calm := by
        change opened.mishaps = []
        rw [hopened.mishaps_eq, hwrittenCalm]
      settings := hopened.leads.find_file hsettings
      loads := (Settings.load_of_touches hsettings hopened (Nat.ne_of_lt hc)).trans hload
      journal := hjournal
      apart := Nat.ne_of_lt hc
      recorded := hrecorded
      opened := hgeneration }

end Run

end BlockLedger
