import BlockLedger.Proofs.Command.Lines
import BlockLedger.Proofs.Command.Ready
import BlockLedger.Proofs.Request.Sizes

/-!
# From a new node to a checked bundle

Every command is a run of its own, and what one leaves for the next is in files. Setting up a node and
submitting blocks keep it ready (`Run.Ready.submitAll`), whether they are accepted or not. A bundle is
then made by the ledger that the journal holds, written as a text, read back from the file and replayed,
and its root is the one that is shown for the node (`Run.Ready.replays_later`). It stays good whatever is
submitted later, since only the journal is touched then.

The exit code of a check says how far it has come: it depends on nothing but the bundle that is read and
the root that it is replayed to (`Run.exitCode_verify`). `Run.end_to_end` puts both together.
-/

namespace BlockLedger.Run

open FileSystem

variable {fs fs' : FileSystem} {home path : String} {l : Ledger} {c n : Nat}

/-! ### Checking a bundle -/

/-- **The file at a path is a bundle that is replayed** without a fault and gives some root. -/
def Replays (fs : FileSystem) (path : String) (b : Bundle) (root : Digest) : Prop :=
  ∃ text, fs.readText path = .ok text ∧ Bundle.decode text = .ok b ∧
    b.proof.replay b.leaves = .ok root

theorem exitCode_of_replays {b : Bundle} {root : Digest} (h : Replays fs path b root)
    (trusted : Option Digest) :
    (verify fs path trusted).ending.exitCode = if root = trusted.getD b.root then 0 else 2 := by
  obtain ⟨text, htext, hdecode, hreplay⟩ := h
  have hverify : b.verifyAgainst (trusted.getD b.root) =
      .ok (decide (root = trusted.getD b.root)) := by
    rw [Bundle.verifyAgainst, InclusionProof.verify, hreplay]
    rfl
  rw [verify, htext]
  simp only [hdecode, hverify]
  by_cases hroot : root = trusted.getD b.root
  · rw [if_pos hroot, decide_eq_true hroot]
    rfl
  · rw [if_neg hroot, decide_eq_false hroot]
    rfl

theorem exists_replays {trusted : Option Digest}
    (h : (verify fs path trusted).ending.exitCode ≠ 1) : ∃ b root, Replays fs path b root := by
  rw [verify] at h
  split at h
  · exact absurd rfl h
  · next text htext =>
    split at h
    · exact absurd rfl h
    · next b hdecode =>
      cases hreplay : b.proof.replay b.leaves with
      | error e =>
        simp only [Bundle.verifyAgainst, InclusionProof.verify, hreplay] at h
        exact absurd rfl h
      | ok root => exact ⟨b, root, text, htext, hdecode, hreplay⟩

theorem Replays.unique {b b' : Bundle} {root root' : Digest} (h : Replays fs path b root)
    (h' : Replays fs path b' root') : b = b' ∧ root = root' := by
  obtain ⟨text, htext, hdecode, hreplay⟩ := h
  obtain ⟨text', htext', hdecode', hreplay'⟩ := h'
  rw [htext] at htext'
  cases htext'
  rw [hdecode] at hdecode'
  cases hdecode'
  rw [hreplay] at hreplay'
  cases hreplay'
  exact ⟨rfl, rfl⟩

/-- **What a checker says of a file**: it is accepted if the bundle is replayed to the root that it is
checked against, it is rejected if it is replayed to another one, and all else is a failure. -/
theorem exitCode_verify (fs : FileSystem) (path : String) (trusted : Option Digest) :
    let code := (verify fs path trusted).ending.exitCode
    (code = 0 ↔ ∃ b, Replays fs path b (trusted.getD b.root)) ∧
      (code = 2 ↔ ∃ b root, Replays fs path b root ∧ root ≠ trusted.getD b.root) ∧
      (code = 1 ↔ ¬ ∃ b root, Replays fs path b root) := by
  intro code
  -- a file holds one bundle at most, which is replayed to one root
  by_cases hreplays : ∃ b root, Replays fs path b root
  · obtain ⟨b, root, h⟩ := hreplays
    have hcode : code = if root = trusted.getD b.root then 0 else 2 := exitCode_of_replays h trusted
    have hzero : (∃ b, Replays fs path b (trusted.getD b.root)) ↔ root = trusted.getD b.root := by
      refine ⟨fun ⟨b', h'⟩ => ?_, fun hroot => ⟨b, hroot ▸ h⟩⟩
      obtain ⟨rfl, hroot⟩ := h.unique h'
      exact hroot
    have htwo : (∃ b root, Replays fs path b root ∧ root ≠ trusted.getD b.root) ↔
        root ≠ trusted.getD b.root := by
      refine ⟨fun ⟨b', root', h', hroot⟩ => ?_, fun hroot => ⟨b, root, h, hroot⟩⟩
      obtain ⟨rfl, rfl⟩ := h.unique h'
      exact hroot
    have hone : ∃ b root, Replays fs path b root := ⟨b, root, h⟩
    rw [hzero, htwo, hcode]
    split_ifs with hroot
    · simp [hroot, hone]
    · simp [hroot, hone]
  · have hcode : code = 1 := by
      by_contra hne
      exact hreplays (exists_replays hne)
    rw [hcode]
    refine ⟨iff_of_false (by decide) fun ⟨b, h⟩ => hreplays ⟨b, _, h⟩,
      iff_of_false (by decide) fun ⟨b, root, h, _⟩ => hreplays ⟨b, root, h⟩, iff_of_true rfl hreplays⟩

/-! ### Submitting one block after the other -/

/-- The files after blocks have been submitted, each at its time. -/
def submitAll (home : String) (fs : FileSystem) : List (Instant × Submission) → FileSystem
  | [] => fs
  | (now, s) :: submits => submitAll home (submit fs home now s).files submits

/-- The identifiers of the blocks that are accepted among those that are submitted. -/
def acceptedIds (home : String) (fs : FileSystem) : List (Instant × Submission) → List String
  | [] => []
  | (now, s) :: submits =>
    (if (submit fs home now s).ending.exitCode = 0 then [s.id] else []) ++
      acceptedIds home (submit fs home now s).files submits

/-- **A node stays ready** whatever is submitted, and holds the blocks that have been accepted. -/
theorem Ready.submitAll (h : Ready home l c n fs) (submits : List (Instant × Submission)) :
    ∃ l', Ready home l' c n (Run.submitAll home fs submits) ∧ l'.limit = l.limit ∧
      Touches n fs (Run.submitAll home fs submits) ∧
      l'.blocks.map (·.id) = l.blocks.map (·.id) ++ acceptedIds home fs submits := by
  induction submits generalizing fs l with
  | nil => exact ⟨l, h, rfl, .refl n fs, (List.append_nil _).symm⟩
  | cons first submits ih =>
    obtain ⟨now, s⟩ := first
    obtain ⟨l₁, hready, hlimit, htouches, hids⟩ := h.submit now s
    obtain ⟨l₂, hready', hlimit', htouches', hids'⟩ := ih hready
    refine ⟨l₂, hready', hlimit'.trans hlimit, htouches.trans htouches', ?_⟩
    rw [hids', hids, acceptedIds, List.append_assoc]

/-! ### Making a bundle -/

/-- **The root that is shown** is that of the ledger. -/
theorem Ready.root_eq (h : Ready home l c n fs) (now : Instant) (table : Option String) :
    root fs home now table = report fs (.root (l.rootInfo table) now) := by
  rw [root, h.withLedger_eq]

/-- A bundle that is not written to a file is shown. -/
theorem Ready.prove_none (h : Ready home l c n fs) {ids : List String} {b : Bundle}
    (hb : l.bundle ids = .ok b) : prove fs home ids none = report fs (.shownBundle b) := by
  rw [prove, h.withLedger_eq, hb]

theorem Ready.prove_of_write (h : Ready home l c n fs) {ids : List String} {b : Bundle}
    (hb : l.bundle ids = .ok b) {file : String}
    (hwrite : fs.write file (Bytes.ofText b.toJson.indented) = .ok fs') :
    prove fs home ids (some file) = report fs' (.writtenBundle b) := by
  rw [prove, h.withLedger_eq]
  simp only [hb, attemptWrite_of_calm h.calm hwrite]

/-- A bundle that has been written to a file is one that the ledger answers with. -/
theorem Ready.exists_write (h : Ready home l c n fs) {ids : List String} {file : String}
    (hok : (prove fs home ids (some file)).ending.exitCode = 0) :
    ∃ b, l.bundle ids = .ok b ∧
      fs.write file (Bytes.ofText b.toJson.indented) =
        .ok (prove fs home ids (some file)).files := by
  cases hb : l.bundle ids with
  | error e =>
    rw [prove, h.withLedger_eq, hb] at hok
    cases hok
  | ok b =>
    refine ⟨b, rfl, ?_⟩
    rw [prove, h.withLedger_eq, hb] at hok ⊢
    cases hattempt : fs.attemptWrite file (Bytes.ofText b.toJson.indented) with
    | mk result files =>
      cases result with
      | error e =>
        simp only [hattempt] at hok
        cases hok
      | ok =>
        have hwrite := attemptWrite_eq_ok hattempt
        rw [takeMishap_of_calm h.calm] at hwrite
        simp only [hattempt]
        exact hwrite

/-- **A bundle that has been written to a file** is replayed to its root. -/
theorem replays_of_find {b : Bundle} {file : String} {m : Nat}
    (hfind : fs.find file = .ok (.file m))
    (hbytes : fs.bytesOf (.file m) = Bytes.ofText b.toJson.indented) (hb : b.Writable)
    (hverify : b.verifyAgainst b.root = .ok true) : Replays fs file b b.root := by
  have htext : fs.readText file = .ok b.toJson.indented := by
    rw [readText, read_of_find hfind, hbytes]
    simp only [Bytes.text?_ofText]
  have hmem : b.toJson.indented ∈ b.texts := List.mem_cons_of_mem _ List.mem_cons_self
  refine ⟨_, htext, hb.decode_of_mem_texts hmem, ?_⟩
  rw [Bundle.verifyAgainst, InclusionProof.verify] at hverify
  cases hreplay : b.proof.replay b.leaves with
  | error e =>
    rw [hreplay] at hverify
    cases hverify
  | ok root =>
    rw [hreplay] at hverify
    exact congrArg Except.ok (of_decide_eq_true (Except.ok.inj hverify))

/-- **A bundle for the blocks of a node**, written to a file that is not one of the node's own, is
replayed to the root of the node, also after more blocks have been submitted: these only touch the
journal. -/
theorem Ready.replays_later (h : Ready home l c n fs) (hsmall : l.blocks.length < unsignedLimit)
    {ids : List String} {file : String} (hsettings : fs.find file ≠ fs.find (Settings.path home))
    (hjournal : fs.find file ≠ fs.find (Settings.standard.journalPath home))
    (hok : (prove fs home ids (some file)).ending.exitCode = 0) :
    ∃ b, l.snapshot.tree.rootHash? = some b.root ∧
      ∀ later, Replays (Run.submitAll home (prove fs home ids (some file)).files later) file b
        b.root := by
  obtain ⟨b, hb, hwrite⟩ := h.exists_write hok
  obtain ⟨hwritable, hroot, hverify⟩ := h.recorded.consistent.bundle_eq_ok hsmall hb
  have htext := Bytes.ofText_ne_nil b.indented_ne_empty
  obtain ⟨m, hfind, hbytes, htouches, hfile⟩ := write_eq_ok h.sound htext hwrite
  -- the bundle stands in a third file
  have hmc : m ≠ c := h.sound.ne_of_find_ne hfile h.settings hsettings
  have hmn : m ≠ n := h.sound.ne_of_find_ne hfile h.journal hjournal
  refine ⟨b, hroot, fun later => ?_⟩
  have hready := h.touch htouches (h.sound.write hwrite) hmc hmn
  obtain ⟨-, -, -, hlater, -⟩ := hready.submitAll later
  have haccepted : b.verifyAgainst b.root = .ok true := by rw [hverify, decide_eq_true rfl]
  refine replays_of_find (hlater.leads.find_file hfind) ?_ hwritable haccepted
  rw [hlater.others m hmn, hbytes]

/-- **A request for blocks that are held** is answered, and the bundle is shown or written to any file
that can be opened. -/
theorem Ready.exitCode_prove (h : Ready home l c n fs) {ids : List String} (hne : ids ≠ [])
    (hin : ∀ id ∈ ids, id ∈ l.blocks.map (·.id)) (hshort : ids.length ≤ l.limit) :
    (prove fs home ids none).ending.exitCode = 0 ∧
      ∀ file m opened, fs.openFile file = .ok (.file m, opened) →
        (prove fs home ids (some file)).ending.exitCode = 0 := by
  have hheld : ∀ id ∈ ids, ∃ b ∈ l.blocks, b.id = id := fun id hid => List.mem_map.1 (hin id hid)
  obtain ⟨b, hb, -⟩ := h.recorded.consistent.exists_bundle hshort hne hheld
  refine ⟨by rw [h.prove_none hb]; rfl, fun file m opened hopen => ?_⟩
  have hwrite : fs.write file (Bytes.ofText b.toJson.indented) =
      .ok (opened.setBytes (.file m) (Bytes.ofText b.toJson.indented)) := by
    rw [write, hopen]
  rw [h.prove_of_write hb hwrite]
  rfl

/-! ### From beginning to end -/

/-- **From beginning to end.** A node has been set up in a bare home, blocks have been submitted to it,
some of which may have been refused, and nothing befalls what is done to the files.

* A bundle that is written to a file other than the node's own two is accepted against its own root.
  It is accepted as well against the root that is shown for the node then, in digits of either case,
  and rejected against all other digits. This stays so after more submissions. The numbers in a bundle
  have 64 bits, so this is said for as many blocks.
* A request for accepted blocks within the limit is answered, and the bundle is written to any file
  that can be opened.
* Whatever a file holds, a check accepts it if it is a bundle that is replayed to the root it is checked
  against, rejects it if it is one that is replayed to another root, and fails otherwise. -/
theorem end_to_end {fs₀ : FileSystem} (hsound : fs₀.Sound) (hcalm : fs₀.mishaps = [])
    (hbare : Bare fs₀ home) {limit : Nat} {force : Bool}
    (hinit : (init fs₀ home limit force).ending.exitCode = 0)
    (submits : List (Instant × Submission)) :
    let made := (init fs₀ home limit force).files
    let fs := submitAll home made submits
    let accepted := acceptedIds home made submits
    (∀ ids file, accepted.length < unsignedLimit →
      fs.find file ≠ fs.find (Settings.path home) →
      fs.find file ≠ fs.find (Settings.standard.journalPath home) →
      (prove fs home ids (some file)).ending.exitCode = 0 →
      ∃ R, (∀ now table, ∃ info, root fs home now table = report fs (.root info now) ∧
          info.root = some R) ∧
        ∀ later,
          let fs' := submitAll home (prove fs home ids (some file)).files later
          (verify fs' file none).ending.exitCode = 0 ∧
          ∀ digits, Digest.Spells digits → ∃ d,
            (∀ s, Invocation.parse s ["verify", "--root", digits, "--", file] =
              .ok ⟨Invocation.defaultHome s, .plain, .verify file (some d)⟩) ∧
            (verify fs' file (some d)).ending.exitCode =
              if digits.toLower = R.hex then 0 else 2) ∧
    (∀ ids, ids ≠ [] → (∀ id ∈ ids, id ∈ accepted) → ids.length ≤ limit →
      (prove fs home ids none).ending.exitCode = 0 ∧
      ∀ file n opened, fs.openFile file = .ok (.file n, opened) →
        (prove fs home ids (some file)).ending.exitCode = 0) ∧
    ∀ files path trusted,
      let code := (verify files path trusted).ending.exitCode
      (code = 0 ↔ ∃ b, Replays files path b (trusted.getD b.root)) ∧
        (code = 2 ↔ ∃ b root, Replays files path b root ∧ root ≠ trusted.getD b.root) ∧
        (code = 1 ↔ ¬ ∃ b root, Replays files path b root) := by
  intro made fs accepted
  -- `l` is the ledger that holds the blocks that have been accepted, and no others
  obtain ⟨l₀, c, n, hready₀, hlimit₀, hnone⟩ := ready_of_init hsound hcalm hbare hinit
  obtain ⟨l, hready, hlimit, -, hids⟩ := hready₀.submitAll submits
  have hheld : l.blocks.map (·.id) = accepted := by
    rw [hids, hnone]
    rfl
  refine ⟨fun ids file hsmall hsettings hjournal hok => ?_, fun ids hne hin hshort => ?_,
    fun files path trusted => exitCode_verify files path trusted⟩
  · have hcount : l.blocks.length < unsignedLimit := by
      rw [← List.length_map, hheld]
      exact hsmall
    obtain ⟨b, hroot, hreplays⟩ := hready.replays_later hcount hsettings hjournal hok
    refine ⟨b.root, fun now table => ⟨_, hready.root_eq now table, hroot⟩, fun later => ⟨?_, ?_⟩⟩
    · exact (exitCode_of_replays (hreplays later) none).trans (if_pos rfl)
    · intro digits hdigits
      obtain ⟨d, hparse, hhex⟩ := Digest.exists_parse_eq hdigits
      refine ⟨d, fun s => Invocation.parse_verify s file hparse hdigits,
        (exitCode_of_replays (hreplays later) (some d)).trans ?_⟩
      -- digits that differ in more than their case stand for another digest
      have hsame : digits.toLower = b.root.hex ↔ b.root = d := by
        rw [← hhex]
        exact ⟨fun heq => (Digest.hex_inj heq).symm, fun heq => by rw [heq]⟩
      simp only [hsame, Option.getD_some]
  · rw [← hlimit₀, ← hlimit] at hshort
    exact hready.exitCode_prove hne (by rw [hheld]; exact hin) hshort

/-- A block is accepted, its repetition is refused, and the bundle is written over an older file. -/
theorem end_to_end_repeated :
    let start := FileSystem.fresh.addFile ["work", "bundle.json"]
    let made := (init start "node" 4 false).files
    let a : Submission := ⟨"a", "t", "put", [], .text "x"⟩
    let submits : List (Instant × Submission) := [(⟨1, 0⟩, a), (⟨2, 0⟩, a)]
    let fs := submitAll "node" made submits
    (start.Sound ∧ start.mishaps = [] ∧ Bare start "node" ∧
        (init start "node" 4 false).ending.exitCode = 0) ∧
      acceptedIds "node" made submits = ["a"] ∧
      (prove fs "node" ["a"] (some "bundle.json")).ending.exitCode = 0 ∧
      ∀ later, (verify (submitAll "node" (prove fs "node" ["a"] (some "bundle.json")).files later)
        "bundle.json" none).ending.exitCode = 0 := by
  intro start made a submits fs
  have hsound : start.Sound := sound_fresh.addFile _
  have hbare : Bare start "node" := ⟨by decide +kernel, by decide +kernel⟩
  have hinit : (init start "node" 4 false).ending.exitCode = 0 := by decide +kernel
  -- the block is acceptable once
  obtain ⟨l, c, n, hready, -, hnone⟩ := ready_of_init hsound rfl hbare hinit
  have hfirst : (submit made "node" ⟨1, 0⟩ a).ending.exitCode = 0 := by
    refine (hready.exitCode_submit_iff ⟨1, 0⟩ a).2 ⟨⟨_, rfl⟩, by decide, ?_⟩
    rw [hnone]
    exact List.not_mem_nil
  obtain ⟨l', hready', -, -, hids⟩ := hready.submit ⟨1, 0⟩ a
  have hsecond : (submit (submit made "node" ⟨1, 0⟩ a).files "node" ⟨2, 0⟩ a).ending.exitCode ≠ 0 := by
    rw [ne_eq, hready'.exitCode_submit_iff]
    rintro ⟨-, -, hfresh⟩
    rw [hids, if_pos hfirst] at hfresh
    exact hfresh (List.mem_append_right _ List.mem_cons_self)
  have haccepted : acceptedIds "node" made submits = ["a"] := by
    simp only [submits, acceptedIds, if_pos hfirst, if_neg hsecond]
    rfl
  -- the three files keep their numbers
  obtain ⟨-, -, -, htouches, -⟩ := hready.submitAll submits
  have hfind : ∀ path k, made.find path = .ok (.file k) → fs.find path = .ok (.file k) :=
    fun path k => htouches.leads.find_file
  have hfile := hfind "bundle.json" 0 (by decide +kernel)
  have hsettings := hfind (Settings.path "node") 1 (by decide +kernel)
  have hjournal := hfind (Settings.standard.journalPath "node") 2 (by decide +kernel)
  obtain ⟨hverified, hproved, -⟩ := end_to_end hsound rfl hbare hinit submits
  have hprove := (hproved ["a"] (by decide) (by rw [haccepted]; exact fun _ => id) (by decide)).2
    "bundle.json" 0 fs (openFile_of_find hfile)
  obtain ⟨R, -, hlater⟩ := hverified ["a"] "bundle.json" (by rw [haccepted]; decide)
    (by rw [hfile, hsettings]; decide) (by rw [hfile, hjournal]; decide) hprove
  exact ⟨⟨hsound, rfl, hbare, hinit⟩, haccepted, hprove, fun later => (hlater later).1⟩

end BlockLedger.Run
