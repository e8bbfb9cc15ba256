import BlockLedger.Proofs.Ledger.Refusals

/-!
# Blocks handed in together and one by one

A call with several blocks checks them against each other, writes them down in one piece and builds
the tree once. Calls with one block each do all of this again and again. The difference cannot be
seen afterwards, but for the generation (`Ledger.run_batch_singles`).

What both ways lead to is said without either of them (`Ledger.grown`): the blocks stand behind
those that were there, and the journal has counted their records. One call makes a ledger grow by
its blocks (`Ledger.accept_grown`), and growing twice is growing by both lists
(`Ledger.grown_grown`), so calls one after the other do the same (`Ledger.run_singles`).

The two ways also refuse the same lists of blocks. A call checks its blocks against what is known
and against each other; a single block is checked against what is known by then, which is the same
thing, since the blocks before it are known (`Ledger.vet_concat`).
-/

namespace BlockLedger

/-! ### Files that have been appended to -/

namespace FileSystem

variable {fs fs' : FileSystem}

/-- Bytes that are put behind others stand there in both. -/
theorem Alike.extend (h : fs.Alike fs') (handle : Handle) (bytes : Bytes) :
    (fs.extend handle bytes).Alike (fs'.extend handle bytes) := by
  rw [h.eq]
  cases handle <;> exact ⟨rfl, rfl, rfl⟩

/-- No bytes behind a file change nothing. -/
theorem extend_nil (fs : FileSystem) (handle : Handle) : fs.Alike (fs.extend handle []) := by
  cases handle with
  | full => exact .refl fs
  | file n =>
    refine ⟨rfl, ?_, rfl⟩
    by_cases hn : n < fs.contents.length
    · simp [FileSystem.extend, setBytes, bytesOf, hn]
    · exact List.set_eq_of_length_le (Nat.le_of_not_lt hn)

/-- Bytes may be put behind a file in two parts. -/
theorem extend_extend (fs : FileSystem) (handle : Handle) (a b : Bytes) :
    (fs.extend handle a).extend handle b = fs.extend handle (a ++ b) := by
  cases handle with
  | full => rfl
  | file n =>
    by_cases hn : n < fs.contents.length
    · simp [FileSystem.extend, setBytes, bytesOf, hn]
    · -- there is no such file, and nothing is changed
      have hout : fs.contents.length ≤ n := Nat.le_of_not_lt hn
      simp [FileSystem.extend, setBytes, List.set_eq_of_length_le hout]

/-- Looking up what befalls an append changes nothing else. -/
theorem alike_nextMishap (fs : FileSystem) (handle : Handle) (size : Nat) :
    fs.Alike (fs.nextMishap handle size).2 := by
  cases handle with
  | full => exact .refl fs
  | file n =>
    exact fs.alike_takeMishap

end FileSystem

namespace Ledger

variable {l : Ledger} {fs fs' : FileSystem} {blocks : List Block}

/-! ### Ledgers that have grown -/

/-- **A ledger that has grown** by some blocks in so many calls. -/
def grown (l : Ledger) (blocks : List Block) (calls : Nat) : Ledger :=
  { l with
    blocks := l.blocks ++ blocks.map Block.filled
    known := l.known ++ blocks.map (·.id)
    snapshot := .of (l.blocks ++ blocks.map Block.filled) (l.snapshot.generation + calls)
    journal := l.journal.map fun j =>
      { j with committed := j.committed + (recordsOf (blocks.map Block.filled)).length } }

/-- The files after the records of some blocks have been put into the journal, if there is one. -/
def noted (l : Ledger) (fs : FileSystem) (blocks : List Block) : FileSystem :=
  match l.journal with
  | none => fs
  | some j => fs.extend j.handle (recordsOf (blocks.map Block.filled))

theorem grown_nil (h : l.snapshot = .of l.blocks l.snapshot.generation) : l.grown [] 0 = l := by
  obtain ⟨limit, held, known, snapshot, journal⟩ := l
  have hsnapshot : Snapshot.of held snapshot.generation = snapshot := h.symm
  cases journal <;> simp [grown, recordsOf, hsnapshot]

/-- **Growing twice** is growing by the blocks of both times. -/
theorem grown_grown (l : Ledger) (xs ys : List Block) (m n : Nat) :
    (l.grown xs m).grown ys n = l.grown (xs ++ ys) (m + n) := by
  cases hj : l.journal with
  | none => simp [grown, hj, Snapshot.of, Nat.add_assoc]
  | some j => simp [grown, hj, Snapshot.of, Nat.add_assoc, Journal.recordsOf_append]

theorem noted_nil (l : Ledger) (fs : FileSystem) : fs.Alike (l.noted fs []) := by
  rw [noted]
  split
  · exact .refl fs
  · exact fs.extend_nil _

/-- What a ledger that has grown puts into the journal stands behind what has been put there. -/
theorem noted_grown (l : Ledger) (fs : FileSystem) (xs ys : List Block) (m : Nat) :
    (l.grown xs m).noted (l.noted fs xs) ys = l.noted fs (xs ++ ys) := by
  cases hj : l.journal with
  | none => simp [grown, noted, hj]
  | some j =>
    simp only [grown, noted, hj, Option.map_some]
    rw [FileSystem.extend_extend, List.map_append, Journal.recordsOf_append]

theorem noted_alike (h : fs.Alike fs') (l : Ledger) (blocks : List Block) :
    (l.noted fs blocks).Alike (l.noted fs' blocks) := by
  rw [noted, noted]
  split
  · exact h
  · exact h.extend _ _

/-! ### One call -/

/-- **A call that is accepted** makes the ledger grow by its blocks. -/
theorem accept_grown (hok : (l.accept fs blocks).result.isOk = true) :
    (l.accept fs blocks).ledger = l.grown blocks 1 ∧
      (l.noted fs blocks).Alike (l.accept fs blocks).files := by
  cases hvet : l.vet blocks with
  | error e =>
    rw [accept_eq_of_vet_error hvet] at hok
    cases hok
  | ok vetted =>
    obtain ⟨-, -, -, rfl⟩ := vet_eq_ok_iff.1 hvet
    have hids : (blocks.map Block.filled).map (·.id) = blocks.map (·.id) := by
      rw [List.map_map]
      simp
    cases hj : l.journal with
    | none =>
      rw [accept_eq_concluded hvet, record, hj]
      simp only [concluded, publish, grown, noted, hj, hids, Option.map_none]
      exact ⟨trivial, .refl fs⟩
    | some j =>
      rw [accept_eq_appended hj hvet] at hok ⊢
      -- of the three things an append can do, only one lets the call be accepted
      rcases j.append_cases fs (blocks.map Block.filled) with
        ⟨-, heq⟩ | ⟨-, later, hmishap, heq⟩ | ⟨-, m, later, -, heq⟩
      · rw [heq] at hok
        cases hok
      · rw [heq]
        have hlater : fs.Alike later := by
          have halike := fs.alike_nextMishap j.handle (recordsOf (blocks.map Block.filled)).length
          rwa [hmishap] at halike
        simp only [concluded, Except.mapError, publish, grown, noted, hj, hids, Option.map_some]
        exact ⟨trivial, hlater.extend _ _⟩
      · rw [heq] at hok
        cases hok

/-- Unless the journal fails, a call is accepted iff its blocks pass the check. -/
theorem isOk_accept_iff (hio : ∀ cause, (l.accept fs blocks).result ≠ .error (.journal cause)) :
    (l.accept fs blocks).result.isOk = true ↔ l.vet blocks = .ok (blocks.map Block.filled) := by
  cases hvet : l.vet blocks with
  | error e =>
    rw [accept_eq_of_vet_error hvet]
    exact ⟨nofun, nofun⟩
  | ok vetted =>
    obtain ⟨-, -, -, rfl⟩ := vet_eq_ok_iff.1 hvet
    refine iff_of_true ?_ rfl
    cases hresult : (l.accept fs blocks).result with
    | error e =>
      obtain ⟨j, cause, -, -, rfl⟩ := (accept_eq_error_iff_of_vet hvet).1 hresult
      exact absurd hresult (hio cause)
    | ok s => rfl

/-- **The check of one more block** asks that it passes the check of a ledger that holds the blocks
before it. -/
theorem vet_concat (l : Ledger) (blocks : List Block) (b : Block) (calls : Nat) :
    l.vet (blocks ++ [b]) = .ok ((blocks ++ [b]).map Block.filled) ↔
      l.vet blocks = .ok (blocks.map Block.filled) ∧
        (l.grown blocks calls).vet [b] = .ok ([b].map Block.filled) := by
  have hknown : (l.grown blocks calls).known = l.known ++ blocks.map (·.id) := rfl
  rw [vet_eq_ok_iff, vet_eq_ok_iff, vet_eq_ok_iff, hknown]
  simp only [List.map_append, List.map_cons, List.map_nil, List.nodup_append, List.nodup_singleton,
    List.mem_append, List.mem_singleton, forall_eq, List.mem_map, and_true]
  -- known to the ledger that has grown is what was known before, and what is handed in with it
  refine ⟨?_, ?_⟩
  · rintro ⟨hnamed, ⟨hdistinct, -, hapart⟩, hfresh⟩
    refine ⟨⟨fun b' hb' => hnamed b' (.inl hb'), hdistinct, fun b' hb' => hfresh b' (.inl hb')⟩,
      hnamed b (.inr rfl), trivial, ?_⟩
    rintro (hmem | ⟨b', hb', hid⟩)
    · exact hfresh b (.inr rfl) hmem
    · exact hapart _ ⟨b', hb', rfl⟩ hid
  · rintro ⟨⟨hnamed, hdistinct, hfresh⟩, hname, -, hnew⟩
    refine ⟨?_, ⟨hdistinct, trivial, ?_⟩, ?_⟩
    · rintro b' (hb' | rfl)
      · exact hnamed b' hb'
      · exact hname
    · rintro _ ⟨b', hb', rfl⟩ hid
      exact hnew (.inr ⟨b', hb', hid⟩)
    · rintro b' (hb' | rfl) hmem
      · exact hfresh b' hb' hmem
      · exact hnew (.inl hmem)

/-! ### Calls one after the other -/

/-- A call that hands in one block is accepted when the block is. -/
theorem perform_submit (l : Ledger) (fs : FileSystem) (b : Block) :
    (l.perform fs (.submit b)).result.isOk = (l.accept fs [b]).result.isOk ∧
      (l.perform fs (.submit b)).ledger = (l.accept fs [b]).ledger ∧
      (l.perform fs (.submit b)).files = (l.accept fs [b]).files := by
  rw [perform_eq, Call.blocks]
  generalize l.accept fs [b] = accepted
  obtain ⟨result, l', fs'⟩ := accepted
  cases result <;> exact ⟨rfl, rfl, rfl⟩

/-- **Blocks that are handed in one by one** are all accepted iff they pass the check together, and
then the ledger has grown by all of them. The induction is on the blocks from the end, since the last
one meets a ledger that has grown by those before it. -/
theorem run_singles (hsnapshot : l.snapshot = .of l.blocks l.snapshot.generation)
    (hio : ∀ answer ∈ (l.run fs (blocks.map .submit)).answers, ∀ cause,
      answer ≠ .error (.journal cause)) :
    ((∀ answer ∈ (l.run fs (blocks.map .submit)).answers, answer.isOk = true) ↔
        l.vet blocks = .ok (blocks.map Block.filled)) ∧
      (l.vet blocks = .ok (blocks.map Block.filled) →
        (l.run fs (blocks.map .submit)).ledger = l.grown blocks blocks.length ∧
          (l.noted fs blocks).Alike (l.run fs (blocks.map .submit)).files) := by
  induction blocks using List.reverseRecOn with
  | nil =>
    have hpasses : l.vet [] = .ok [] := rfl
    have hnone : ∀ answer ∈ (l.run fs []).answers, answer.isOk = true := fun _ h => nomatch h
    exact ⟨iff_of_true hnone hpasses, fun _ => ⟨(grown_nil hsnapshot).symm, (l.noted_nil fs).symm⟩⟩
  | append_singleton bs b ih =>
    rw [List.map_append, List.map_singleton, run_concat] at hio ⊢
    -- `r` is what the blocks before the last one have led to
    generalize l.run fs (bs.map .submit) = r at hio ih ⊢
    obtain ⟨hisOk, hledger, hfiles⟩ := perform_submit r.ledger r.files b
    rw [Run.next, List.forall_mem_append, List.forall_mem_singleton] at hio
    obtain ⟨hbefore, hlast⟩ := ih hio.1
    have hlastIo : ∀ cause, (r.ledger.accept r.files [b]).result ≠ .error (.journal cause) := by
      intro cause hfailed
      refine hio.2 cause ?_
      rw [perform_eq, Call.blocks, Outcome.map, hfailed]
      rfl
    have hpasses := isOk_accept_iff hlastIo
    rw [Run.next, List.forall_mem_append, List.forall_mem_singleton, hbefore, hisOk, hpasses,
      l.vet_concat bs b bs.length]
    refine ⟨and_congr_right fun hbs => by rw [(hlast hbs).1], ?_⟩
    rintro ⟨hbs, hb⟩
    obtain ⟨hgrown, hnoted⟩ := hlast hbs
    rw [← hgrown] at hb
    obtain ⟨hgrown', hnoted'⟩ := accept_grown (hpasses.2 hb)
    refine ⟨?_, ?_⟩
    · rw [hledger, hgrown', hgrown, grown_grown, List.length_append, List.length_singleton]
    · rw [hfiles]
      have hboth : (l.noted fs (bs ++ [b])).Alike (r.ledger.noted r.files [b]) := by
        rw [hgrown, ← noted_grown l fs bs [b] bs.length]
        exact noted_alike hnoted _ _
      exact hboth.trans hnoted'

/-- The snapshot of a ledger is always that of its blocks. -/
theorem snapshot_run {start : Ledger} (h : Started start fs) (calls : List Call) :
    (start.run fs calls).ledger.snapshot =
      .of (start.run fs calls).ledger.blocks
        (start.run fs calls).ledger.snapshot.generation := by
  have hstart : start.snapshot = .of start.blocks start.snapshot.generation := by
    cases h with
    | new limit => rfl
    | ofJournal hledger =>
      rw [ofJournal] at hledger
      split at hledger
      · cases hledger
      · split at hledger
        · cases hledger
        · cases hledger
          rfl
  refine run_induction
    (P := fun r => r.ledger.snapshot = .of r.ledger.blocks r.ledger.snapshot.generation)
    hstart (fun r c hr => ?_) calls
  rw [Run.next]
  rcases r.ledger.perform_cases r.files c with ⟨e, -, hkeeps⟩ | ⟨-, haccepts⟩
  · rw [hkeeps.snapshot_eq, hkeeps.blocks_eq]
    exact hr
  · rw [haccepts.snapshot_eq]
    rfl

/-- **Handing in blocks together is handing them in one by one.** In every state that calls can lead
to, with a journal or without one, and as long as the journal does not fail: a batch is accepted iff
each of its blocks is, handed in one after the other. Then both ways lead to the same blocks, known
identifiers, tree, counts and journal, all files hold the same bytes, and the receipt for the batch
tells the root and the number of leaves that the single calls have led to. The generation has gone up
by one, or by one for each block. -/
theorem run_batch_singles {start : Ledger} (h : Started start fs) (calls : List Call)
    (blocks : List Block) :
    let before := start.run fs calls
    let batch := before.ledger.submitBatch before.files blocks
    let singles := before.ledger.run before.files (blocks.map .submit)
    (∀ cause, batch.result ≠ .error (.journal cause)) →
    (∀ answer ∈ singles.answers, ∀ cause, answer ≠ .error (.journal cause)) →
      (batch.result.isOk = true ↔ ∀ answer ∈ singles.answers, answer.isOk = true) ∧
      ∀ receipt, batch.result = .ok receipt →
        batch.ledger.blocks = singles.ledger.blocks ∧
        batch.ledger.known = singles.ledger.known ∧
        batch.ledger.snapshot.tree = singles.ledger.snapshot.tree ∧
        (∀ table, batch.ledger.snapshot.blockCount table =
          singles.ledger.snapshot.blockCount table) ∧
        batch.ledger.journal = singles.ledger.journal ∧
        batch.files = { singles.files with mishaps := batch.files.mishaps } ∧
        receipt.root = singles.ledger.snapshot.tree.rootHash? ∧
        receipt.leafCount = singles.ledger.snapshot.tree.leafCount ∧
        receipt.accepted = blocks.length ∧
        batch.ledger.snapshot.generation = before.ledger.snapshot.generation + 1 ∧
        singles.ledger.snapshot.generation
          = before.ledger.snapshot.generation + blocks.length := by
  intro before batch singles hbatchIo hsinglesIo
  -- the single calls are told by the check of all blocks together
  obtain ⟨hall, hsingles⟩ := run_singles (snapshot_run h calls) hsinglesIo
  -- the batch is one call, with another answer
  let accepted := before.ledger.accept before.files blocks
  have hresult : batch.result
      = accepted.result.map fun s => ⟨s.tree.rootHash?, blocks.length, s.tree.leafCount⟩ := rfl
  have hisOk : batch.result.isOk = accepted.result.isOk := by
    rw [hresult]
    cases accepted.result <;> rfl
  have hpasses : accepted.result.isOk = true ↔
      before.ledger.vet blocks = .ok (blocks.map Block.filled) := by
    refine isOk_accept_iff fun cause hfailed => hbatchIo cause ?_
    rw [hresult, show accepted.result = _ from hfailed]
    rfl
  refine ⟨by rw [hisOk, hpasses, hall], fun receipt hreceipt => ?_⟩
  have hok : accepted.result.isOk = true := by
    rw [← hisOk, hreceipt]
    rfl
  obtain ⟨hbatch, hbatchFiles⟩ := accept_grown hok
  obtain ⟨hgrown, hfiles⟩ := hsingles (hpasses.1 hok)
  have hledger : batch.ledger = before.ledger.grown blocks 1 := hbatch
  have hsnapshot : receipt = ⟨batch.ledger.snapshot.tree.rootHash?, blocks.length,
      batch.ledger.snapshot.tree.leafCount⟩ := by
    rcases before.ledger.accept_cases before.files blocks with ⟨e, herror, -⟩ | ⟨hvalue, -⟩
    · rw [show accepted.result = _ from herror] at hok
      cases hok
    · rw [hresult, show accepted.result = _ from hvalue] at hreceipt
      cases hreceipt
      rfl
  have hsame : batch.files = { singles.files with mishaps := batch.files.mishaps } :=
    (hfiles.symm.trans hbatchFiles).eq
  rw [hsnapshot, hledger, show singles.ledger = _ from hgrown]
  exact ⟨rfl, rfl, rfl, fun table => rfl, rfl, hsame, rfl, rfl, rfl, rfl, rfl⟩

/-- Two blocks, one of them without payload, behind one that has been taken in and written to a
journal. -/
theorem run_batch_singles_two :
    let a : Block := { id := "a", payload := [1] }
    let blocks : List Block := [{ id := "b", payload := [] }, { id := "c", payload := [2] }]
    let opened := FileSystem.fresh.addFile ["work", "blocks"]
    let start : Ledger := .ofBlocks 1 [] (some ⟨"blocks", .file 0, 0, false⟩)
    let before := start.run opened [.submit a]
    let batch := before.ledger.submitBatch before.files blocks
    let singles := before.ledger.run before.files (blocks.map .submit)
    Started start opened ∧ batch.result.isOk = true ∧
      (∀ answer ∈ singles.answers, answer.isOk = true) ∧
      batch.ledger.journal = singles.ledger.journal ∧
      batch.files = { singles.files with mishaps := batch.files.mishaps } := by
  intro a blocks opened start before batch singles
  have hstarted : Started start opened := .ofJournal (j := ⟨"blocks", .file 0, 0, false⟩) rfl
  have hbatch : batch.result.isOk = true := by decide +kernel
  have hsingles : ∀ answer ∈ singles.answers, answer.isOk = true := by decide +kernel
  obtain ⟨receipt, hreceipt⟩ : ∃ receipt, batch.result = .ok receipt := by
    cases hresult : batch.result with
    | error e =>
      rw [hresult] at hbatch
      cases hbatch
    | ok receipt => exact ⟨receipt, rfl⟩
  obtain ⟨-, hsame⟩ := run_batch_singles hstarted [.submit a] blocks
    (fun cause hfailed => by
      rw [show batch.result = _ from hfailed] at hbatch
      cases hbatch)
    (fun answer hanswer cause hfailed => by
      have hok := hsingles answer hanswer
      rw [hfailed] at hok
      cases hok)
  obtain ⟨-, -, -, -, hjournal, hfiles, -⟩ := hsame receipt hreceipt
  exact ⟨hstarted, hbatch, hsingles, hjournal, hfiles⟩

end Ledger

end BlockLedger
