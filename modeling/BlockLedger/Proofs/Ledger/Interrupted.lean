import BlockLedger.Proofs.Journal.Torn
import BlockLedger.Proofs.Ledger.Restart

/-!
# Calls that are interrupted

A call writes the records of its blocks to the journal before it takes them in. If the process
stops on the way, or if the append fails and cannot be taken back, only so many of these bytes are
in the file (`Session.Interrupted`). What is found there when the ledger is opened again depends on
how many records are whole.

* A single block is lost, and so is a batch of which the first record is not whole: the ledger is
  the one from before the call, and the call can be made again.
* Where records of a batch are whole, their blocks are in the ledger, although the batch has not
  been taken in. Making the call again is refused, as the first block is known already; what can be
  handed in are the other blocks, and this leads to the state that the whole batch would have led
  to.

This is `Session.interrupted_reopened`. The invariant that carries it along the requests before the
call is that the journal holds the blocks of the ledger (`Session.Recorded`), unless it is poisoned
and refuses all calls (`Session.Sealed`). In contrast to the runs without failures, an append may
fail and be taken back.
-/

namespace BlockLedger

open Ledger

/-- The bytes that are to be written for a call. -/
def Ledger.Call.records (c : Call) : Bytes := recordsOf (c.blocks.map Block.filled)

namespace Session

variable {limit : Nat} {path : String} {s : Session} {j : Journal} {c : Call}

/-! ### Requests of which some fail -/

/-- The journal has failed for good. -/
def Sealed (s : Session) : Prop := ∃ j, s.ledger.journal = some j ∧ j.poisoned = true

/-- A failed append that has been taken back leaves the ledger recorded. -/
theorem Recorded.append_failed (h : s.Recorded path) (hjournal : s.ledger.journal = some j)
    {blocks : List Block} (hfailed : (j.append s.files blocks).result.isOk = false)
    (hclean : (j.append s.files blocks).journal.poisoned = false) :
    Recorded path ⟨{ s.ledger with journal := some (j.append s.files blocks).journal },
      (j.append s.files blocks).files⟩ := by
  obtain ⟨⟨j₀, hj₀, hpath, hsettled, hload⟩, hconsistent, hknown, hsnapshot⟩ := h
  obtain rfl : j = j₀ := Option.some.inj (hjournal.symm.trans hj₀)
  obtain ⟨hsame, hbytes⟩ := hsettled.vouches.append_failed hfailed hclean
  have hvouches := hsettled.vouches.append blocks
  rw [hfailed, if_neg Bool.false_ne_true, List.append_nil] at hvouches
  have hsettled' := hvouches.settled hsettled.complete hclean
  rw [hsame] at hsettled' ⊢
  have hkeeps : s.ledger.Keeps { s.ledger with journal := some j } := ⟨rfl, rfl, rfl, rfl⟩
  refine ⟨⟨j, rfl, hpath, hsettled', ?_⟩, hkeeps.consistent hconsistent, hknown, hsnapshot⟩
  rw [hsettled'.load_eq_ok_iff, hbytes]
  exact hsettled.load_eq_ok_iff.1 hload

/-- Taking in blocks leaves a ledger recorded, whether it fails or not, or seals it. -/
theorem Recorded.accept_cases (h : s.Recorded path) (blocks : List Block) :
    (Recorded path
        ⟨(s.ledger.accept s.files blocks).ledger, (s.ledger.accept s.files blocks).files⟩ ∧
      (s.ledger.accept s.files blocks).ledger.limit = s.ledger.limit) ∨
      Sealed ⟨(s.ledger.accept s.files blocks).ledger, (s.ledger.accept s.files blocks).files⟩ := by
  obtain ⟨j, hjournal, -⟩ := h.journal
  cases hvet : s.ledger.vet blocks with
  | error e =>
    rw [accept_eq_of_vet_error hvet]
    exact .inl ⟨h, rfl⟩
  | ok vetted =>
    cases hresult : (j.append s.files vetted).result with
    | ok u =>
      refine .inl (h.accept fun cause hfailed => ?_)
      rw [accept_eq_appended hjournal hvet, hresult] at hfailed
      cases hfailed
    | error e =>
      rw [accept_eq_appended hjournal hvet, hresult]
      have hfailed : (j.append s.files vetted).result.isOk = false := by rw [hresult]; rfl
      cases hpoisoned : (j.append s.files vetted).journal.poisoned with
      | false => exact .inl ⟨h.append_failed hjournal hfailed hpoisoned, rfl⟩
      | true => exact .inr ⟨_, rfl, hpoisoned⟩

/-- A sealed ledger takes in nothing and stays sealed. -/
theorem Sealed.accept (h : s.Sealed) (blocks : List Block) :
    Sealed ⟨(s.ledger.accept s.files blocks).ledger, (s.ledger.accept s.files blocks).files⟩ := by
  obtain ⟨j, hjournal, hpoisoned⟩ := h
  cases hvet : s.ledger.vet blocks with
  | error e =>
    rw [accept_eq_of_vet_error hvet]
    exact ⟨j, hjournal, hpoisoned⟩
  | ok vetted =>
    rw [accept_eq_appended hjournal hvet, Journal.append_of_poisoned hpoisoned]
    exact ⟨j, rfl, hpoisoned⟩

theorem serve_call (s : Session) (c : Call) :
    (s.serve (.call c)).2 =
      ⟨(s.ledger.accept s.files c.blocks).ledger, (s.ledger.accept s.files c.blocks).files⟩ := by
  rw [serve, perform_eq]
  rfl

/-- **A request** leaves a ledger recorded or seals it. -/
theorem recorded_or_sealed_serve
    (h : (s.Recorded path ∧ s.ledger.limit = limit) ∨ s.Sealed) (r : Request) :
    ((s.serve r).2.Recorded path ∧ (s.serve r).2.ledger.limit = limit) ∨ (s.serve r).2.Sealed := by
  cases r with
  | call c =>
    rw [serve_call]
    rcases h with ⟨hrecorded, hlimit⟩ | hsealed
    · rcases hrecorded.accept_cases c.blocks with ⟨hrecorded', hlimit'⟩ | hsealed
      · exact .inl ⟨hrecorded', hlimit'.trans hlimit⟩
      · exact .inr hsealed
    · exact .inr (hsealed.accept c.blocks)
  | root table => exact h
  | prove ids => exact h
  | bundle ids => exact h
  | difference other => exact h

/-- **After any requests**, whichever of them fail, a ledger is recorded or sealed. -/
theorem recorded_or_sealed_serveAll
    (h : (s.Recorded path ∧ s.ledger.limit = limit) ∨ s.Sealed) (requests : List Request) :
    ((s.serveAll requests).2.Recorded path ∧ (s.serveAll requests).2.ledger.limit = limit) ∨
      (s.serveAll requests).2.Sealed := by
  induction requests generalizing s with
  | nil => exact h
  | cons r rs ih => exact ih (recorded_or_sealed_serve h r)

/-! ### Calls that would be accepted -/

/-- The result of a call if no append fails. -/
def offered (s : Session) (c : Call) : Except LedgerFault Answer :=
  (s.ledger.perform { s.files with mishaps := [] } c).result

theorem offered_eq_of_vet_error {e : LedgerFault} (h : s.ledger.vet c.blocks = .error e) :
    s.offered c = .error e := by
  rw [offered, perform_eq, accept_eq_of_vet_error h]
  rfl

/-- **A call is accepted**, unless an append fails, if its blocks pass the check and the journal can
be written to. The answer is that for the blocks of the ledger and those of the call. -/
theorem offered_eq_ok_iff (hjournal : s.ledger.journal = some j) {a : Answer} :
    s.offered c = .ok a ↔
      (j.poisoned = false ∧ j.handle ≠ .full) ∧
        s.ledger.vet c.blocks = .ok (c.blocks.map Block.filled) ∧
        a = c.answer (.of (s.ledger.blocks ++ c.blocks.map Block.filled) 0) := by
  cases hvet : s.ledger.vet c.blocks with
  | error e =>
    rw [offered_eq_of_vet_error hvet]
    simp
  | ok vetted =>
    obtain ⟨-, -, -, rfl⟩ := vet_eq_ok_iff.1 hvet
    have hok := j.append_ok_iff_of_no_mishaps s.files (c.blocks.map Block.filled)
    rw [offered, perform_eq, accept_eq_appended hjournal hvet, ← hok]
    generalize j.append { s.files with mishaps := [] } (c.blocks.map Block.filled) = appended
    obtain ⟨result, j', fs'⟩ := appended
    cases result with
    | error e => simp [Outcome.map, concluded, Except.map, Except.mapError]
    | ok u =>
      have hresult : (Outcome.map (fun s => c.answer s)
          (concluded ⟨.ok (), { s.ledger with journal := some j' }, fs'⟩
            (c.blocks.map Block.filled))).result =
          .ok (c.answer (.of (s.ledger.blocks ++ c.blocks.map Block.filled) 0)) := by
        rw [c.answer_of_generation 0 (s.ledger.snapshot.generation + 1)]
        rfl
      simp only [Except.mapError]
      rw [hresult]
      simp [eq_comm]

/-! ### Interrupted calls -/

/-- **A call has been interrupted** when so many of its bytes, but not all of them, had been
written, and these are the files: the process has stopped, or the append has failed and so has
taking it back. In the last case the file may have been cut back all the same. -/
inductive Interrupted (s : Session) (c : Call) : Nat → FileSystem → Prop
  | stopped {j : Journal} {n : Nat} (hjournal : s.ledger.journal = some j)
    (hcut : n < c.records.length) :
    Interrupted s c n (s.files.extend j.handle (c.records.take n))
  | failed {j : Journal} {m : Mishap} {later : FileSystem} (hjournal : s.ledger.journal = some j)
    (hmishap : s.files.nextMishap j.handle c.records.length = (some m, later))
    (hundo : m.undo = .failed) (hcut : m.written < c.records.length) :
    Interrupted s c m.written (s.ledger.perform s.files c).files
  | unsettled {j : Journal} {m : Mishap} {later : FileSystem}
    (hjournal : s.ledger.journal = some j)
    (hmishap : s.files.nextMishap j.handle c.records.length = (some m, later))
    (hundo : m.undo = .unsettled) (hcut : 0 < c.records.length) :
    Interrupted s c 0 (s.ledger.perform s.files c).files

/-- **What is in the file** after an interrupted call: what was there, and the bytes written. -/
theorem Interrupted.bytesOf_eq {n : Nat} {after : FileSystem}
    (hinterrupted : s.Interrupted c n after) (hjournal : s.ledger.journal = some j)
    (hsettled : j.Settled s.files) {a : Answer} (hoffered : s.offered c = .ok a) :
    n < c.records.length ∧ j.Located after ∧
      after.bytesOf j.handle = s.files.bytesOf j.handle ++ c.records.take n := by
  obtain ⟨⟨hclean, hfull⟩, hvet, -⟩ := (offered_eq_ok_iff hjournal).1 hoffered
  have hnone : ∀ bytes : Bytes, j.handle = .full → bytes = [] := fun _ heq => absurd heq hfull
  have hfiles : (s.ledger.perform s.files c).files =
      (j.append s.files (c.blocks.map Block.filled)).files := by
    rw [perform_eq, accept_eq_appended hjournal hvet]
    exact concluded_files _ _
  cases hinterrupted with
  | @stopped j₀ n hj₀ hcut =>
    obtain rfl : j = j₀ := Option.some.inj (hjournal.symm.trans hj₀)
    have hrewrites := s.files.rewrites_setBytes j.handle
      (s.files.bytesOf j.handle ++ c.records.take n)
    exact ⟨hcut, hsettled.located.of_rewrites hrewrites rfl rfl,
      FileSystem.bytesOf_extend hsettled.inside (hnone _)⟩
  | @failed j₀ m later hj₀ hmishap hundo hcut =>
    obtain rfl : j = j₀ := Option.some.inj (hjournal.symm.trans hj₀)
    obtain ⟨hrewrites, hbytes⟩ := hsettled.vouches.bytesOf_written hclean hmishap
      (hnone (c.records.take m.written))
    rw [hfiles, Journal.append_of_mishap hclean hmishap, hundo]
    exact ⟨hcut, hsettled.located.of_rewrites hrewrites rfl rfl, hbytes⟩
  | @unsettled j₀ m later hj₀ hmishap hundo hcut =>
    obtain rfl : j = j₀ := Option.some.inj (hjournal.symm.trans hj₀)
    obtain ⟨hrewrites, hbytes⟩ := hsettled.vouches.bytesOf_written hclean hmishap
      (hnone (c.records.take m.written))
    have hlocated := hsettled.located.of_rewrites hrewrites rfl rfl
    -- the file has been cut back to what was there
    have hcutBack := FileSystem.bytesOf_resize hlocated.inside hbytes
    rw [hfiles, Journal.append_of_mishap hclean hmishap, hundo]
    refine ⟨hcut, hlocated.of_rewrites (FileSystem.rewrites_setBytes _ _ _) rfl rfl, ?_⟩
    rw [List.take_zero, List.append_nil]
    rw [← hsettled.committed] at hcutBack
    exact hcutBack

/-! ### Opening the ledger again -/

/-- **The ledger that is opened after an interrupted call** holds, behind the blocks from before the
call, those whose records are whole. -/
theorem Recorded.exists_start_eq (limit : Nat) (h : s.Recorded path)
    (hjournal : s.ledger.journal = some j) {a : Answer} (hoffered : s.offered c = .ok a) {n : Nat}
    {after : FileSystem} (hinterrupted : s.Interrupted c n after) :
    let filled := c.blocks.map Block.filled
    let kept := wholeRecords filled n
    kept < c.blocks.length ∧ ((s.ledger.blocks ++ filled).map (·.id)).Nodup ∧
      ∃ j' opened, start limit path after =
          .ok ⟨.ofBlocks limit (s.ledger.blocks ++ filled.take kept) (some j'), opened⟩ ∧
        (j'.poisoned = false ∧ j'.handle ≠ .full) ∧ (kept = 0 → j' = j) := by
  intro filled kept
  obtain ⟨j₀, hj₀, rfl, hsettled, hload⟩ := h.journal
  obtain rfl : j = j₀ := Option.some.inj (hjournal.symm.trans hj₀)
  obtain ⟨⟨-, hfull⟩, hvet, -⟩ := (offered_eq_ok_iff hjournal).1 hoffered
  obtain ⟨hnamed, hdistinct, hfresh, -⟩ := vet_eq_ok_iff.1 hvet
  obtain ⟨hcut, hlocated, hbytes⟩ := hinterrupted.bytesOf_eq hjournal hsettled hoffered
  have hids : filled.map (·.id) = c.blocks.map (·.id) := by simp [filled]
  have hlt : kept < c.blocks.length := by
    have hwhole := wholeRecords_lt hcut
    rwa [List.length_map] at hwhole
  -- blocks of the call have none of the identifiers that the ledger knows
  have hall : ((s.ledger.blocks ++ filled).map (·.id)).Nodup := by
    rw [List.map_append, hids, List.nodup_append]
    refine ⟨h.consistent.distinct, hdistinct, fun id hold id' hnew heq => ?_⟩
    obtain ⟨b, hb, rfl⟩ := List.mem_map.1 hnew
    rw [← h.known, heq] at hold
    exact hfresh b hb hold
  obtain ⟨j', opened, hopen, hsettled', hpath, hhandle, hkept⟩ := hlocated.exists_openAt_eq
  have hholds : opened.bytesOf j.handle =
      s.files.bytesOf j.handle ++ recordsOf (filled.take kept) := by
    rw [hkept, hbytes, hsettled.complete.completePart_append, Call.records,
      completePart_take_recordsOf]
  have hload' : j'.load opened = .ok (s.ledger.blocks ++ filled.take kept) := by
    rw [hsettled'.load_eq_ok_iff, hhandle, hholds]
    refine readRecords_append hsettled.complete (hsettled.load_eq_ok_iff.1 hload) fun b hb => ?_
    obtain ⟨b₀, hb₀, rfl⟩ := List.mem_map.1 (List.mem_of_mem_take hb)
    rw [Block.filled_id]
    exact hnamed b₀ hb₀
  have hsublist : (s.ledger.blocks ++ filled.take kept).Sublist (s.ledger.blocks ++ filled) :=
    (List.take_sublist _ _).append_left _
  refine ⟨hlt, hall, j', opened,
    start_eq_of_load hopen hload' (hall.sublist (hsublist.map _)),
    ⟨hsettled'.clean, by rwa [hhandle]⟩, fun hzero => ?_⟩
  refine hsettled.eq_of_bytesOf hsettled' hpath hhandle ?_
  rw [hholds, hzero]
  exact List.append_nil _

/-- A ledger that holds the first blocks of a call refuses the call for the very first of them. -/
theorem offered_eq_duplicate {old bs : List Block} {b : Block} {files : FileSystem} {k : Nat}
    (hblocks : c.blocks = b :: bs) (hnamed : ∀ b ∈ c.blocks, b.id ≠ "") (hk : 0 < k) :
    offered ⟨.ofBlocks limit (old ++ (c.blocks.map Block.filled).take k) (some j), files⟩ c =
      .error (.duplicate b.id) := by
  obtain ⟨k, rfl⟩ := Nat.exists_eq_succ_of_ne_zero (Nat.ne_of_gt hk)
  refine offered_eq_of_vet_error ?_
  have hknown : b.id ∈ (old ++ (c.blocks.map Block.filled).take (k + 1)).map (·.id) := by
    rw [hblocks, List.map_cons, List.take_succ_cons, List.mem_map]
    exact ⟨b.filled, List.mem_append_right _ List.mem_cons_self, Block.filled_id b⟩
  generalize old ++ (c.blocks.map Block.filled).take (k + 1) = held at hknown
  rw [hblocks] at hnamed ⊢
  exact vet_eq_duplicate hnamed hknown

/-- **A ledger that holds the first blocks of a call** takes in the others, and answers for all of
them. -/
theorem offered_drop {old blocks : List Block} {files : FileSystem}
    (hwritable : j.poisoned = false ∧ j.handle ≠ .full) (hnamed : ∀ b ∈ blocks, b.id ≠ "")
    (hdistinct : ((old ++ blocks.map Block.filled).map (·.id)).Nodup) (k : Nat) :
    let rest := Call.submitBatch (blocks.drop k)
    offered ⟨.ofBlocks limit (old ++ (blocks.map Block.filled).take k) (some j), files⟩ rest =
      .ok (rest.answer (.of (old ++ blocks.map Block.filled) 0)) := by
  intro rest
  have hrest : rest.blocks.map Block.filled = (blocks.map Block.filled).drop k := List.map_drop
  have hsplit : old ++ (blocks.map Block.filled).take k ++ rest.blocks.map Block.filled =
      old ++ blocks.map Block.filled := by
    rw [hrest, List.append_assoc, List.take_append_drop]
  have hids : (rest.blocks.map Block.filled).map (·.id) = rest.blocks.map (·.id) := by simp
  -- none of the others has the identifier of a block that is held
  rw [← hsplit, List.map_append, hids, List.nodup_append] at hdistinct
  obtain ⟨-, hdistinct', hdisjoint⟩ := hdistinct
  refine (offered_eq_ok_iff rfl).2 ⟨hwritable, vet_eq_ok_iff.2 ⟨?_, hdistinct', ?_, rfl⟩, ?_⟩
  · exact fun b hb => hnamed b (List.mem_of_mem_drop hb)
  · exact fun b hb hknown => hdisjoint b.id hknown b.id (List.mem_map_of_mem hb) rfl
  · rw [← hsplit]
    rfl

/-- What becomes of a recorded ledger when a call is interrupted. -/
theorem Recorded.interrupted (h : s.Recorded path) (hlimit : s.ledger.limit = limit) {a : Answer}
    (hoffered : s.offered c = .ok a) {n : Nat} {after : FileSystem}
    (hinterrupted : s.Interrupted c n after) :
    let filled := c.blocks.map Block.filled
    let kept := wholeRecords filled n
    let rest := Call.submitBatch (c.blocks.drop kept)
    kept < c.blocks.length ∧
      ∃ s', start limit path after = .ok s' ∧
        s'.ledger.blocks = s.ledger.blocks ++ filled.take kept ∧
        s'.ledger.snapshot = .of (s.ledger.blocks ++ filled.take kept) 0 ∧
        (kept = 0 → s'.ledger = s.ledger.withGeneration 0 ∧ s'.offered c = .ok a) ∧
        (0 < kept → ∃ b, c.blocks.head? = some b ∧ s'.offered c = .error (.duplicate b.id)) ∧
        s'.offered rest = .ok (rest.answer (.of (s.ledger.blocks ++ filled) 0)) := by
  intro filled kept rest
  obtain ⟨j, hjournal, -⟩ := h.journal
  obtain ⟨-, hvet, hanswer⟩ := (offered_eq_ok_iff hjournal).1 hoffered
  obtain ⟨hnamed, -, -, -⟩ := vet_eq_ok_iff.1 hvet
  obtain ⟨hlt, hall, j', opened, hstart, hwritable, hsame⟩ :=
    h.exists_start_eq limit hjournal hoffered hinterrupted
  refine ⟨hlt, _, hstart, rfl, rfl, fun hzero => ?_, fun hpos => ?_,
    offered_drop hwritable hnamed hall kept⟩
  · -- nothing has been kept, so all is as before the call
    have hledger : Ledger.ofBlocks limit (s.ledger.blocks ++ filled.take kept) (some j') =
        s.ledger.withGeneration 0 := by
      rw [hsame hzero, hzero, List.take_zero, List.append_nil, ← hlimit, ← hjournal, h.ofBlocks_eq]
    refine ⟨hledger, ?_⟩
    rw [hledger]
    exact (offered_eq_ok_iff (s := ⟨s.ledger.withGeneration 0, opened⟩) hjournal).2
      ⟨by rw [← hsame hzero]; exact hwritable, hvet, hanswer⟩
  · obtain ⟨b, bs, hblocks⟩ := List.exists_cons_of_length_pos (Nat.lt_trans hpos hlt)
    exact ⟨b, by rw [hblocks, List.head?_cons], offered_eq_duplicate hblocks hnamed hpos⟩

/-- **What becomes of an interrupted call.** Take a ledger over a journal after any requests,
whichever of them have failed, and a call that it would accept. If the call is interrupted, the
ledger can be opened again, and it holds the blocks from before the call and those whose records are
whole, which are not all of them.

If no record is whole, the ledger is the one from before the call, and the call would be accepted
with the same answer. If the record of the first block is whole, the call is refused because this
block is known already. The blocks that are missing can be handed in either way, and this leads to
the state to which the call would have led. -/
theorem interrupted_reopened {files : FileSystem} (hsound : files.Sound) {first : Session}
    (hstart : start limit path files = .ok first) (requests : List Request) {a : Answer} {n : Nat}
    {after : FileSystem} (hoffered : (first.serveAll requests).2.offered c = .ok a)
    (hinterrupted : (first.serveAll requests).2.Interrupted c n after) :
    let s := (first.serveAll requests).2
    let filled := c.blocks.map Block.filled
    let kept := wholeRecords filled n
    let rest := Call.submitBatch (c.blocks.drop kept)
    kept < c.blocks.length ∧
      ∃ s', start limit path after = .ok s' ∧
        s'.ledger.blocks = s.ledger.blocks ++ filled.take kept ∧
        s'.ledger.snapshot = .of (s.ledger.blocks ++ filled.take kept) 0 ∧
        (kept = 0 → s'.ledger = s.ledger.withGeneration 0 ∧ s'.offered c = .ok a) ∧
        (0 < kept → ∃ b, c.blocks.head? = some b ∧ s'.offered c = .error (.duplicate b.id)) ∧
        s'.offered rest = .ok (rest.answer (.of (s.ledger.blocks ++ filled) 0)) := by
  obtain ⟨hrecorded, hlimit, -⟩ := recorded_of_start hsound hstart
  rcases recorded_or_sealed_serveAll (.inl ⟨hrecorded, hlimit⟩) requests with
    ⟨hrecorded', hlimit'⟩ | ⟨j, hjournal, hpoisoned⟩
  · exact hrecorded'.interrupted hlimit' hoffered hinterrupted
  · -- a ledger that is sealed would not accept the call
    obtain ⟨⟨hclean, -⟩, -⟩ := (offered_eq_ok_iff hjournal).1 hoffered
    rw [hpoisoned] at hclean
    cases hclean

/-- A first append fails and is taken back. Then a block is submitted, and the process stops when
three bytes have been written. -/
theorem interrupted_reopened_single :
    let files : FileSystem := { FileSystem.fresh with mishaps := [some ⟨3, .noSpace, .done⟩] }
    let journal : Journal := ⟨"blocks", .file 0, 0, false⟩
    let first : Session := ⟨.ofBlocks 1 [] (some journal), files.addFile ["work", "blocks"]⟩
    let c : Call := .submit { id := "a", payload := [1] }
    let s := (first.serveAll [.call c]).2
    start 1 "blocks" files = .ok first ∧
      ∃ a after, s.offered c = .ok a ∧ s.Interrupted c 3 after ∧
        ∃ s', start 1 "blocks" after = .ok s' ∧ s'.ledger = s.ledger.withGeneration 0 ∧
          s'.offered c = .ok a := by
  intro files journal first c s
  have hsound : files.Sound := FileSystem.sound_fresh
  have hopen : Journal.openAt files "blocks" = (.ok journal, files.addFile ["work", "blocks"]) := by
    rfl
  have hstart : start 1 "blocks" files = .ok first :=
    start_eq_of_load hopen (by decide +kernel) List.nodup_nil
  have hjournal : s.ledger.journal = some journal := by decide +kernel
  have hvet : s.ledger.vet c.blocks = .ok (c.blocks.map Block.filled) := by decide +kernel
  have hfull : journal.handle ≠ .full := by decide
  have hoffered := (offered_eq_ok_iff (s := s) (c := c) hjournal).2 ⟨⟨rfl, hfull⟩, hvet, rfl⟩
  have hinterrupted := Interrupted.stopped (s := s) (c := c) (n := 3) hjournal (by decide +kernel)
  have hnone : wholeRecords (c.blocks.map Block.filled) 3 = 0 := by decide +kernel
  obtain ⟨-, s', hreopened, -, -, hsame, -⟩ :=
    interrupted_reopened hsound hstart [.call c] hoffered hinterrupted
  obtain ⟨hledger, hagain⟩ := hsame hnone
  exact ⟨hstart, _, _, hoffered, hinterrupted, s', hreopened, hledger, hagain⟩

/-- **A batch that is neither lost nor taken in.** The process stops when the record of the first of
two blocks has been written. The ledger that is opened again holds this block, and so has another
root than before the call; the batch is refused because of it. -/
theorem interrupted_keeps_first :
    let a : Block := { id := "a", payload := [1] }
    let b : Block := { id := "b", payload := [2] }
    let c : Call := .submitBatch [a, b]
    ∃ s answer after s', start 1 "blocks" .fresh = .ok s ∧ s.ledger.blocks = [] ∧
      s.offered c = .ok answer ∧ s.Interrupted c a.toRecord.length after ∧
      start 1 "blocks" after = .ok s' ∧ s'.ledger.blocks = [a] ∧
      s'.ledger.snapshot.tree.rootHash? ≠ s.ledger.snapshot.tree.rootHash? ∧
      s'.offered c = .error (.duplicate "a") := by
  intro a b c
  let journal : Journal := ⟨"blocks", .file 0, 0, false⟩
  let s : Session := ⟨.ofBlocks 1 [] (some journal), FileSystem.fresh.addFile ["work", "blocks"]⟩
  have hstart : start 1 "blocks" .fresh = .ok s := by rfl
  obtain ⟨hrecorded, hlimit, -⟩ := recorded_of_start FileSystem.sound_fresh hstart
  have hvet : s.ledger.vet c.blocks = .ok (c.blocks.map Block.filled) := by decide +kernel
  have hfull : journal.handle ≠ .full := by decide
  have hoffered := (offered_eq_ok_iff (s := s) (c := c) (j := journal) rfl).2
    ⟨⟨rfl, hfull⟩, hvet, rfl⟩
  have hinterrupted := Interrupted.stopped (s := s) (c := c) (j := journal)
    (n := a.toRecord.length) rfl (by decide +kernel)
  have hone : wholeRecords (c.blocks.map Block.filled) a.toRecord.length = 1 := by decide +kernel
  obtain ⟨-, s', hreopened, hblocks, hsnapshot, -, hrefused, -⟩ :=
    hrecorded.interrupted hlimit hoffered hinterrupted
  rw [hone] at hblocks hsnapshot hrefused
  obtain ⟨b', hb', hduplicate⟩ := hrefused Nat.one_pos
  cases hb'
  refine ⟨s, _, _, s', hstart, rfl, hoffered, hinterrupted, hreopened, hblocks, ?_, hduplicate⟩
  -- a tree with a leaf has a root, and one without has none
  have hroot : s.ledger.snapshot.tree.rootHash? = none := by rfl
  obtain ⟨d, hd⟩ := Tree.exists_rootHash? (t := s'.ledger.snapshot.tree) (by
    rw [hsnapshot, Snapshot.of, Tree.leaves_ofBlocks]
    exact List.cons_ne_nil _ _)
  rw [hroot, hd]
  exact Option.some_ne_none d

end Session

end BlockLedger
