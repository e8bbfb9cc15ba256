import BlockLedger.Proofs.Journal.Reopen
import BlockLedger.Proofs.Ledger.Invariant

/-!
# Closing a ledger and opening it again

A ledger over a journal is used by requests that come one after the other (`Session.serve`). At any
time between two of them it may be closed and opened again from its journal (`Session.run`). Nobody
can tell whether this has happened, but from the generation that is told with the root: it counts
the accepted calls since the ledger was opened (`Session.run_reopened`).

The invariant is that a reading of the journal gives the blocks of the ledger (`Session.Recorded`).
It holds when a ledger has been opened (`Session.recorded_of_start`), and a request keeps it as long
as the journal does not fail (`Session.Recorded.serve`): what has been written for a block is read
back as that block. A recorded ledger is opened again as it is, but for the generation
(`Session.Recorded.start_eq`), and the generation has no influence on anything else
(`Session.serve_withGeneration`).
-/

namespace BlockLedger

open Ledger

/-! ### Requests -/

/-- **What a ledger can be asked for.** -/
inductive Request where
  | call (call : Call)
  | root (table : Option String)
  | prove (ids : List String)
  | bundle (ids : List String)
  | difference (other : Tree)

/-- What a ledger replies. -/
inductive Reply where
  | call (answer : Except LedgerFault Answer)
  | root (info : RootInfo)
  | proof (proof : Except LedgerFault InclusionProof)
  | bundle (bundle : Except LedgerFault Bundle)
  | difference (difference : Difference)

namespace Reply

/-- The reply with another generation, if it tells one. -/
def withGeneration (generation : Nat) : Reply → Reply
  | .root info => .root { info with generation := generation }
  | reply => reply

/-- Whether blocks have been accepted. -/
def isAccepted : Reply → Bool
  | .call (.ok _) => true
  | _ => false

/-- Two replies are the same, but perhaps for the generation they tell. -/
def SameButGeneration (a b : Reply) : Prop := ∃ generation, a = b.withGeneration generation

/-- Whether the journal has failed. -/
def journalFails : Reply → Bool
  | .call (.error (.journal _)) => true
  | _ => false

end Reply

/-- A ledger in use, with the files as they are. -/
structure Session where
  ledger : Ledger
  files : FileSystem

namespace Session

/-- **A request**: the reply, and the session after it. -/
def serve (s : Session) : Request → Reply × Session
  | .call c =>
    let o := s.ledger.perform s.files c
    (.call o.result, ⟨o.ledger, o.files⟩)
  | .root table => (.root (s.ledger.rootInfo table), s)
  | .prove ids => (.proof (s.ledger.prove ids), s)
  | .bundle ids => (.bundle (s.ledger.bundle ids), s)
  | .difference other => (.difference (s.ledger.difference other), s)

/-- Requests one after the other. -/
def serveAll (s : Session) : List Request → List Reply × Session
  | [] => ([], s)
  | r :: rs => ((s.serve r).1 :: ((s.serve r).2.serveAll rs).1, ((s.serve r).2.serveAll rs).2)

/-- **Opening** the journal at a path and a ledger over it. -/
def start (limit : Nat) (path : String) (files : FileSystem) : Except LedgerFault Session :=
  match Journal.openAt files path with
  | (.error e, _) => .error (.journal e)
  | (.ok j, opened) =>
    match Ledger.ofJournal limit opened j with
    | .error e => .error e
    | .ok l => .ok ⟨l, opened⟩

/-- What happens to a ledger: a request, or it is closed and opened again. -/
inductive Step where
  | request (request : Request)
  | reopen

/-- The requests among some steps. -/
def requestsOf : List Step → List Request
  | [] => []
  | .request r :: steps => r :: requestsOf steps
  | .reopen :: steps => requestsOf steps

/-- **A run with reopenings.** It fails if the ledger cannot be opened again. -/
def run (limit : Nat) (path : String) (s : Session) :
    List Step → Except LedgerFault (List Reply × Session)
  | [] => .ok ([], s)
  | .request r :: steps =>
    match run limit path (s.serve r).2 steps with
    | .error e => .error e
    | .ok (replies, last) => .ok ((s.serve r).1 :: replies, last)
  | .reopen :: steps =>
    match start limit path s.files with
    | .error e => .error e
    | .ok s' => run limit path s' steps

/-- The replies of a run without reopenings, with the generation counted from the last reopening. -/
def recount : Nat → List Step → List Reply → List Reply
  | _, .reopen :: steps, replies => recount 0 steps replies
  | g, .request _ :: steps, reply :: replies =>
    reply.withGeneration g :: recount (if reply.isAccepted then g + 1 else g) steps replies
  | _, _, _ => []

end Session

/-! ### Generations -/

/-- The ledger with another generation. -/
def Ledger.withGeneration (l : Ledger) (generation : Nat) : Ledger :=
  { l with snapshot := { l.snapshot with generation := generation } }

/-- The session with another generation. -/
def Session.withGeneration (s : Session) (generation : Nat) : Session :=
  ⟨s.ledger.withGeneration generation, s.files⟩

namespace Ledger

theorem record_withGeneration (l : Ledger) (generation : Nat) (fs : FileSystem)
    (blocks : List Block) :
    (l.withGeneration generation).record fs blocks =
      ⟨(l.record fs blocks).result, (l.record fs blocks).ledger.withGeneration generation,
        (l.record fs blocks).files⟩ := by
  obtain ⟨limit, held, known, snapshot, journal⟩ := l
  cases journal <;> rfl

/-- What becomes of blocks once it has been tried to write them down. -/
def concluded (written : Outcome Unit) (vetted : List Block) : Outcome Snapshot :=
  match written.result with
  | .error e => ⟨.error e, written.ledger, written.files⟩
  | .ok () =>
    ⟨.ok (written.ledger.publish vetted).snapshot, written.ledger.publish vetted, written.files⟩

theorem accept_eq_concluded {l : Ledger} {blocks vetted : List Block}
    (hvet : l.vet blocks = .ok vetted) (fs : FileSystem) :
    l.accept fs blocks = concluded (l.record fs vetted) vetted := by
  rw [accept, hvet]
  rfl

/-- Publishing does nothing to the files. -/
theorem concluded_files (written : Outcome Unit) (vetted : List Block) :
    (concluded written vetted).files = written.files := by
  rw [concluded]
  split <;> rfl

theorem accept_eq_of_vet_error {l : Ledger} {blocks : List Block} {e : LedgerFault}
    (hvet : l.vet blocks = .error e) (fs : FileSystem) :
    l.accept fs blocks = ⟨.error e, l, fs⟩ := by
  rw [accept, hvet]

/-- **The generation does not matter** for what is taken in, and goes up by one if something is. -/
theorem accept_withGeneration (l : Ledger) (generation : Nat) (fs : FileSystem)
    (blocks : List Block) :
    (l.withGeneration generation).accept fs blocks =
      ⟨(l.accept fs blocks).result.map fun s => { s with generation := generation + 1 },
        (l.accept fs blocks).ledger.withGeneration
          (if (l.accept fs blocks).result.isOk then generation + 1 else generation),
        (l.accept fs blocks).files⟩ := by
  have hsame : (l.withGeneration generation).vet blocks = l.vet blocks := rfl
  cases hvet : l.vet blocks with
  | error e =>
    rw [accept_eq_of_vet_error hvet, accept_eq_of_vet_error (hsame.trans hvet)]
    rfl
  | ok vetted =>
    rw [accept_eq_concluded hvet, accept_eq_concluded (hsame.trans hvet), record_withGeneration]
    generalize l.record fs vetted = written
    obtain ⟨result, l', fs'⟩ := written
    -- the generation is not looked at before the new state is published
    cases result with
    | error e => rfl
    | ok u => rfl

/-- The answer to a call tells nothing of the generation. -/
theorem perform_withGeneration (l : Ledger) (generation : Nat) (fs : FileSystem) (c : Call) :
    (l.withGeneration generation).perform fs c =
      ⟨(l.perform fs c).result,
        (l.perform fs c).ledger.withGeneration
          (if (l.perform fs c).result.isOk then generation + 1 else generation),
        (l.perform fs c).files⟩ := by
  rw [perform_eq, perform_eq, accept_withGeneration]
  generalize l.accept fs c.blocks = accepted
  obtain ⟨result, l', fs'⟩ := accepted
  cases result with
  | error e => rfl
  | ok s => cases c <;> rfl

/-! ### What a call does to the journal -/

/-- Blocks that have passed the check are appended to the journal before they are published. -/
theorem accept_eq_appended {l : Ledger} {blocks vetted : List Block} {j : Journal}
    (hjournal : l.journal = some j) (hvet : l.vet blocks = .ok vetted) (fs : FileSystem) :
    l.accept fs blocks =
      concluded ⟨(j.append fs vetted).result.mapError .journal,
        { l with journal := some (j.append fs vetted).journal }, (j.append fs vetted).files⟩
        vetted := by
  rw [accept_eq_concluded hvet, record, hjournal]

/-- Taking in blocks leaves all as it was, fails with the journal, or has written them down. -/
theorem accept_journal_cases (l : Ledger) (fs : FileSystem) (blocks : List Block) {j : Journal}
    (hjournal : l.journal = some j) :
    (∃ e, l.accept fs blocks = ⟨.error e, l, fs⟩) ∨
      (∃ e, (l.accept fs blocks).result = .error (.journal e)) ∨
      (∃ s, (l.accept fs blocks).result = .ok s ∧
        (j.append fs (blocks.map Block.filled)).result = .ok () ∧
        (l.accept fs blocks).ledger.journal = some (j.append fs (blocks.map Block.filled)).journal ∧
        (l.accept fs blocks).files = (j.append fs (blocks.map Block.filled)).files) := by
  cases hvet : l.vet blocks with
  | error e => exact .inl ⟨e, accept_eq_of_vet_error hvet fs⟩
  | ok vetted =>
    obtain ⟨-, -, -, rfl⟩ := vet_eq_ok_iff.1 hvet
    rw [accept_eq_appended hjournal hvet]
    generalize j.append fs (blocks.map Block.filled) = appended
    obtain ⟨result, j', fs'⟩ := appended
    cases result with
    | error e => exact .inr (.inl ⟨e, rfl⟩)
    | ok u => exact .inr (.inr ⟨_, rfl, rfl, rfl, rfl⟩)

end Ledger

namespace Session

/-! ### Recorded sessions -/

/-- **A ledger is recorded** if the journal at the path holds what the ledger holds. -/
structure Recorded (path : String) (s : Session) : Prop where
  journal : ∃ j, s.ledger.journal = some j ∧ j.path = path ∧ j.Settled s.files ∧
    j.load s.files = .ok s.ledger.blocks
  consistent : s.ledger.Consistent
  known : s.ledger.known = s.ledger.blocks.map (·.id)
  snapshot : s.ledger.snapshot = .of s.ledger.blocks s.ledger.snapshot.generation

variable {path : String} {s : Session}

/-- A journal and a ledger over it have been opened. -/
theorem exists_of_start {limit : Nat} {files : FileSystem} (h : start limit path files = .ok s) :
    ∃ j, Journal.openAt files path = (.ok j, s.files) ∧
      Ledger.ofJournal limit s.files j = .ok s.ledger := by
  rw [start] at h
  split at h
  · cases h
  · next j opened hopen =>
    cases hledger : Ledger.ofJournal limit opened j with
    | error e =>
      rw [hledger] at h
      cases h
    | ok l =>
      rw [hledger] at h
      cases h
      exact ⟨j, hopen, hledger⟩

/-- **A ledger that has been opened** is recorded. -/
theorem recorded_of_start {limit : Nat} {files : FileSystem} (hsound : files.Sound)
    (h : start limit path files = .ok s) :
    s.Recorded path ∧ s.ledger.limit = limit ∧ s.ledger.snapshot.generation = 0 := by
  obtain ⟨j, hopen, hledger⟩ := exists_of_start h
  obtain ⟨hpath, hsettled⟩ := Journal.settled_of_openAt hsound hopen
  have hconsistent := (consistent_of_started (.ofJournal hledger)).1
  obtain ⟨l, opened⟩ := s
  simp only at hledger
  rw [ofJournal] at hledger
  split at hledger
  · cases hledger
  · next blocks hload =>
    split at hledger
    · cases hledger
    · cases hledger
      exact ⟨⟨⟨j, rfl, hpath, hsettled, hload⟩, hconsistent, rfl, rfl⟩, rfl, rfl⟩

/-- **A ledger is opened** with the blocks that its journal holds, if no two of them have one
identifier. -/
theorem start_eq_of_load {limit : Nat} {files opened : FileSystem} {j : Journal}
    (hopen : Journal.openAt files path = (.ok j, opened)) {blocks : List Block}
    (hload : j.load opened = .ok blocks) (hdistinct : (blocks.map (·.id)).Nodup) :
    start limit path files = .ok ⟨.ofBlocks limit blocks (some j), opened⟩ := by
  have hrepeated : firstRepeated [] (blocks.map (·.id)) = none :=
    firstRepeated_eq_none_iff.2 ⟨hdistinct, fun _ _ => List.not_mem_nil⟩
  rw [start, hopen]
  simp only [Ledger.ofJournal, hload, hrepeated]

/-- But for the generation, a recorded ledger is one that starts with its blocks. -/
theorem Recorded.ofBlocks_eq (h : s.Recorded path) :
    Ledger.ofBlocks s.ledger.limit s.ledger.blocks s.ledger.journal =
      s.ledger.withGeneration 0 := by
  rw [ofBlocks, Ledger.withGeneration, h.snapshot, h.known]
  rfl

/-- **A recorded ledger is opened again** as it is, but that it counts the accepted calls anew. -/
theorem Recorded.start_eq (h : s.Recorded path) :
    start s.ledger.limit path s.files = .ok (s.withGeneration 0) := by
  obtain ⟨j, hjournal, rfl, hsettled, hload⟩ := h.journal
  rw [start_eq_of_load hsettled.openAt_eq hload h.consistent.distinct, ← hjournal, h.ofBlocks_eq]
  rfl

/-- Blocks that have been taken in have been written down, and are read back. -/
theorem Recorded.accept (h : s.Recorded path) {blocks : List Block}
    (hio : ∀ cause, (s.ledger.accept s.files blocks).result ≠ .error (.journal cause)) :
    Recorded path
        ⟨(s.ledger.accept s.files blocks).ledger, (s.ledger.accept s.files blocks).files⟩ ∧
      (s.ledger.accept s.files blocks).ledger.limit = s.ledger.limit := by
  obtain ⟨j, hjournal, hpath, hsettled, hload⟩ := h.journal
  rcases s.ledger.accept_journal_cases s.files blocks hjournal with
    ⟨e, hrefused⟩ | ⟨cause, hfailed⟩ | ⟨snapshot, hok, hwritten, hjournal', hfiles⟩
  · rw [hrefused]
    exact ⟨h, rfl⟩
  · exact absurd hfailed (hio cause)
  · rcases s.ledger.accept_cases s.files blocks with ⟨e, herror, -⟩ | ⟨-, haccepts⟩
    · rw [hok] at herror
      cases herror
    have hnamed : ∀ b ∈ blocks.map Block.filled, b.id ≠ "" := by
      rw [List.forall_mem_map]
      intro b hb
      rw [Block.filled_id]
      exact haccepts.named b hb
    obtain ⟨hpath', hsettled', -⟩ := hsettled.append hwritten
    have hload' := hsettled.load_append hload hnamed hwritten
    refine ⟨⟨⟨_, hjournal', hpath'.trans hpath, ?_, ?_⟩, haccepts.consistent h.consistent, ?_, ?_⟩,
      haccepts.limit_eq⟩
    · rw [hfiles]
      exact hsettled'
    · rw [hfiles, haccepts.blocks_eq]
      exact hload'
    · rw [haccepts.ids_eq, haccepts.known_eq, h.known]
    · rw [haccepts.snapshot_eq]
      rfl

/-- **A request keeps a ledger recorded** as long as the journal does not fail. -/
theorem Recorded.serve (h : s.Recorded path) {r : Request}
    (hio : (s.serve r).1.journalFails = false) :
    (s.serve r).2.Recorded path ∧ (s.serve r).2.ledger.limit = s.ledger.limit := by
  cases r with
  | call c =>
    have hserve : s.serve (.call c) = (.call (s.ledger.perform s.files c).result,
        ⟨(s.ledger.perform s.files c).ledger, (s.ledger.perform s.files c).files⟩) := rfl
    rw [hserve, perform_eq] at hio ⊢
    refine h.accept fun cause hfailed => ?_
    rw [Outcome.map, hfailed] at hio
    cases hio
  | root table => exact ⟨h, rfl⟩
  | prove ids => exact ⟨h, rfl⟩
  | bundle ids => exact ⟨h, rfl⟩
  | difference other => exact ⟨h, rfl⟩

/-- **The generation does not matter** for a reply, but for the one it is told in. -/
theorem serve_withGeneration (s : Session) (generation : Nat) (r : Request) :
    (s.withGeneration generation).serve r =
      ((s.serve r).1.withGeneration generation,
        (s.serve r).2.withGeneration
          (if (s.serve r).1.isAccepted then generation + 1 else generation)) := by
  cases r with
  | call c =>
    have hperform := s.ledger.perform_withGeneration generation s.files c
    rw [serve, serve, withGeneration]
    simp only [hperform]
    cases (s.ledger.perform s.files c).result with
    | error e => rfl
    | ok a => rfl
  | root table => rfl
  | prove ids => rfl
  | bundle ids => rfl
  | difference other => rfl

/-! ### Runs -/

/-- The requests of a run with reopenings are replied to as without them. The induction is on the
steps, and what it needs of the ledger is that it is recorded and that the two differ in the
generation alone. -/
theorem Recorded.run_eq {limit : Nat} (h : s.Recorded path) (hlimit : s.ledger.limit = limit)
    (generation : Nat) (steps : List Step)
    (hio : ∀ reply ∈ (s.serveAll (requestsOf steps)).1, reply.journalFails = false) :
    ∃ generation', run limit path (s.withGeneration generation) steps =
      .ok (recount generation steps (s.serveAll (requestsOf steps)).1,
        (s.serveAll (requestsOf steps)).2.withGeneration generation') := by
  induction steps generalizing s generation with
  | nil => exact ⟨generation, rfl⟩
  | cons step steps ih =>
    cases step with
    | request r =>
      obtain ⟨hfirst, hothers⟩ := List.forall_mem_cons.1 hio
      obtain ⟨hserved, hlimit'⟩ := h.serve hfirst
      obtain ⟨generation', hrun⟩ := ih hserved (hlimit'.trans hlimit)
        (if (s.serve r).1.isAccepted then generation + 1 else generation) hothers
      refine ⟨generation', ?_⟩
      rw [run, serve_withGeneration, hrun]
      rfl
    | reopen =>
      -- the ledger that is opened is this one, with the generation it had at the start
      obtain ⟨generation', hrun⟩ := ih h hlimit 0 hio
      have hstart : start limit path (s.withGeneration generation).files =
          .ok (s.withGeneration 0) := by
        rw [← hlimit]
        exact h.start_eq
      refine ⟨generation', ?_⟩
      rw [run, hstart]
      exact hrun

theorem length_serveAll (s : Session) (requests : List Request) :
    (s.serveAll requests).1.length = requests.length := by
  induction requests generalizing s with
  | nil => rfl
  | cons r rs ih => exact congrArg (· + 1) (ih (s.serve r).2)

/-- Counting the generations anew changes nothing else. -/
theorem forall₂_recount {steps : List Step} {replies : List Reply}
    (hlength : replies.length = (requestsOf steps).length) (generation : Nat) :
    List.Forall₂ Reply.SameButGeneration (recount generation steps replies) replies := by
  induction steps generalizing generation replies with
  | nil =>
    rw [List.length_eq_zero_iff.1 hlength]
    exact .nil
  | cons step steps ih =>
    cases step with
    | request r =>
      cases replies with
      | nil => cases hlength
      | cons reply replies => exact .cons ⟨generation, rfl⟩ (ih (Nat.succ.inj hlength) _)
    | reopen => exact ih hlength 0

/-- **Closing a ledger and opening it again from its journal changes no later reply.** Whatever the
journal held when the ledger was opened first, and wherever in the run it is opened again: the run
succeeds, its replies are those of the ledger that has never been closed, and so are the ledger and
the files at its end. Only the generation is counted from the last opening. That the journal does
not fail is asked of the ledger that has never been closed. -/
theorem run_reopened {limit : Nat} {files : FileSystem} (hsound : files.Sound)
    (hstart : start limit path files = .ok s) (steps : List Step)
    (hio : ∀ reply ∈ (s.serveAll (requestsOf steps)).1, reply.journalFails = false) :
    ∃ replies last, run limit path s steps = .ok (replies, last) ∧
      List.Forall₂ Reply.SameButGeneration replies (s.serveAll (requestsOf steps)).1 ∧
      replies = recount 0 steps (s.serveAll (requestsOf steps)).1 ∧
      ∃ generation, last = (s.serveAll (requestsOf steps)).2.withGeneration generation := by
  obtain ⟨hrecorded, hlimit, hzero⟩ := recorded_of_start hsound hstart
  obtain ⟨generation, hrun⟩ := hrecorded.run_eq hlimit 0 steps hio
  have hself : s.withGeneration 0 = s := by
    rw [← hzero]
    rfl
  rw [hself] at hrun
  exact ⟨_, _, hrun, forall₂_recount (length_serveAll s _) 0, rfl, generation, rfl⟩

/-- A block is taken in, and after the ledger has been opened again it is refused as known. -/
theorem run_reopened_duplicate :
    let block : Block := { id := "a", payload := [] }
    let steps : List Step := [.request (.call (.submit block)), .reopen,
      .request (.call (.submit block)), .request (.root none)]
    ∃ s, start 1 "blocks" .fresh = .ok s ∧
      (∀ reply ∈ (s.serveAll (requestsOf steps)).1, reply.journalFails = false) ∧
      ∃ replies last, run 1 "blocks" s steps = .ok (replies, last) ∧
        List.Forall₂ Reply.SameButGeneration replies (s.serveAll (requestsOf steps)).1 := by
  intro block steps
  let journal : Journal := ⟨"blocks", .file 0, 0, false⟩
  let s : Session := ⟨.ofBlocks 1 [] (some journal), FileSystem.fresh.addFile ["work", "blocks"]⟩
  have hstart : start 1 "blocks" .fresh = .ok s := by rfl
  have hio : ∀ reply ∈ (s.serveAll (requestsOf steps)).1, reply.journalFails = false := by
    decide +kernel
  obtain ⟨replies, last, hrun, hsame, -⟩ := run_reopened FileSystem.sound_fresh hstart steps hio
  exact ⟨s, hstart, hio, replies, last, hrun, hsame⟩

end Session

end BlockLedger
