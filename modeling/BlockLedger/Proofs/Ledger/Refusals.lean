import BlockLedger.Proofs.Journal.Faults
import BlockLedger.Proofs.Ledger.Restart

/-!
# Calls that are refused

A call is refused because some block has no identifier, because an identifier is known or repeated,
or because the journal fails, and these causes are looked for in this order whatever the order of the
blocks (`Ledger.Refuses`). A call that none of them applies to is accepted.

A refused call leaves no trace. If it is refused for its blocks, nothing has been touched yet. If the
journal fails, the ledger holds and publishes what it did, and the file of the journal holds the same
bytes, since what has been written is taken back. Only where taking it back fails as well
(`Journal.Spoils`), bytes may be left behind, and the journal takes no more blocks.

All this is said of every state that a run can lead to (`Ledger.run_refused`). What it needs of the
journal is that it vouches for the bytes in its file (`Ledger.Vouched`). Appends that have been made
before the ledger was opened do no harm (`Ledger.Opened`).
-/

namespace BlockLedger

/-! ### Appends that fail -/

namespace Journal

open FileSystem

variable {fs : FileSystem} {j : Journal} {kept : Bytes} {blocks : List Block}

/-- **An append spoils a journal**: some of its bytes may have been written, and taking them back
fails. -/
def Spoils (j : Journal) (fs : FileSystem) (blocks : List Block) : Prop :=
  j.poisoned = false ∧ ∃ m later,
    fs.nextMishap j.handle (recordsOf blocks).length = (some m, later) ∧ m.undo ≠ .done

/-- **An append that fails** changes neither the journal nor its file, or spoils the journal. -/
theorem Vouches.append_failed_cases (h : j.Vouches fs kept)
    (hfailed : (j.append fs blocks).result.isOk = false) :
    ((j.append fs blocks).journal = j ∧ (j.append fs blocks).files.read j.path = fs.read j.path) ∨
      (j.Spoils fs blocks ∧ (j.append fs blocks).journal = { j with poisoned := true }) := by
  rcases j.append_cases fs blocks with ⟨-, heq⟩ | ⟨-, later, -, heq⟩ |
    ⟨hclean, m, later, hmishap, heq⟩
  · rw [heq]
    exact .inl ⟨rfl, rfl⟩
  · rw [heq] at hfailed
    cases hfailed
  · by_cases hdone : m.undo = .done
    · -- what has been written is taken back
      have hsame : (j.append fs blocks).journal = j := by rw [heq, hdone]; rfl
      obtain ⟨-, hbytes⟩ := h.append_failed hfailed (by rw [hsame, hclean])
      have hlocated := (h.append blocks).toLocated
      rw [hsame] at hlocated
      exact .inl ⟨hsame, by rw [hlocated.read_eq, h.read_eq, hbytes]⟩
    · refine .inr ⟨⟨hclean, m, later, hmishap, hdone⟩, ?_⟩
      rw [heq]
      cases hundo : m.undo with
      | done => exact absurd hundo hdone
      | unsettled => rfl
      | failed => rfl

end Journal

/-! ### Identifiers that are known or repeated -/

/-- **The first identifier that is known or repeated** is the one that is reported. The induction is
on the identifiers, each of which is known to those behind it. -/
theorem firstRepeated_eq_some_iff {known ids : List String} {id : String} :
    firstRepeated known ids = some id ↔
      ∃ before after, ids = before ++ id :: after ∧ before.Nodup ∧ (∀ x ∈ before, x ∉ known) ∧
        (id ∈ known ∨ id ∈ before) := by
  induction ids generalizing known with
  | nil => simp [firstRepeated]
  | cons x xs ih =>
    rw [firstRepeated]
    by_cases hx : x ∈ known
    -- the search ends here, so nothing stands before the identifier
    · rw [if_pos (List.contains_iff_mem.2 hx), Option.some.injEq]
      refine ⟨?_, ?_⟩
      · rintro rfl
        exact ⟨[], xs, rfl, List.nodup_nil, fun _ hmem => absurd hmem List.not_mem_nil, .inl hx⟩
      · rintro ⟨before, after, hids, -, hfresh, -⟩
        cases before with
        | nil => exact (List.cons.inj hids).1
        | cons y before =>
          obtain ⟨rfl, -⟩ := List.cons.inj hids
          exact absurd hx (hfresh x List.mem_cons_self)
    -- the search goes on, and from now on the first identifier is known
    · rw [if_neg fun h => hx (List.contains_iff_mem.1 h), ih]
      refine ⟨?_, ?_⟩
      · rintro ⟨before, after, rfl, hnodup, hfresh, hid⟩
        have hnew : x ∉ before := fun hmem => hfresh x hmem List.mem_cons_self
        refine ⟨x :: before, after, rfl, List.nodup_cons.2 ⟨hnew, hnodup⟩, ?_, ?_⟩
        · rw [List.forall_mem_cons]
          exact ⟨hx, fun y hy hknown => hfresh y hy (List.mem_cons_of_mem x hknown)⟩
        · rw [List.mem_cons] at hid ⊢
          tauto
      · rintro ⟨before, after, hids, hnodup, hfresh, hid⟩
        cases before with
        | nil =>
          obtain ⟨rfl, -⟩ := List.cons.inj hids
          exact absurd hid (by simpa using hx)
        | cons y before =>
          obtain ⟨rfl, rfl⟩ := List.cons.inj hids
          obtain ⟨hnew, hnodup⟩ := List.nodup_cons.1 hnodup
          obtain ⟨-, hfresh⟩ := List.forall_mem_cons.1 hfresh
          refine ⟨before, after, rfl, hnodup, fun z hz hknown => ?_, ?_⟩
          · rcases List.mem_cons.1 hknown with rfl | hknown
            · exact hnew hz
            · exact hfresh z hz hknown
          · rw [List.mem_cons] at hid ⊢
            tauto

namespace Ledger

variable {l : Ledger} {fs : FileSystem} {blocks : List Block} {e : LedgerFault}

/-- No two of the blocks have one identifier, and none has that of a block the ledger holds. -/
structure Unused (l : Ledger) (blocks : List Block) : Prop where
  distinct : (blocks.map (·.id)).Nodup
  fresh : ∀ b ∈ blocks, ∀ held ∈ l.blocks, held.id ≠ b.id

/-- Where no identifier is in use or repeated, there is no first one that is. -/
theorem Unused.not_used {before after : List Block} {b : Block}
    (h : l.Unused (before ++ b :: after)) :
    ¬ ((∃ held ∈ l.blocks, held.id = b.id) ∨ ∃ earlier ∈ before, earlier.id = b.id) := by
  rintro (⟨held, hheld, hid⟩ | ⟨earlier, hearlier, hid⟩)
  · exact h.fresh b (List.mem_append_right _ List.mem_cons_self) held hheld hid
  · have hdistinct := h.distinct
    rw [List.map_append, List.map_cons, List.nodup_append] at hdistinct
    obtain ⟨-, -, hapart⟩ := hdistinct
    exact hapart _ (List.mem_map_of_mem hearlier) _ List.mem_cons_self hid

/-- **Why blocks are refused.** Some block has no identifier, or else an identifier is in use or
stands earlier in the list, and then the first such one is reported, or else the journal cannot write
the blocks down. -/
inductive Refuses (l : Ledger) (fs : FileSystem) (blocks : List Block) : LedgerFault → Prop
  | unnamed {b : Block} (hb : b ∈ blocks) (hid : b.id = "") : Refuses l fs blocks .emptyIdentifier
  | repeated {before after : List Block} {b : Block} (hnamed : ∀ b ∈ blocks, b.id ≠ "")
    (hblocks : blocks = before ++ b :: after) (hbefore : l.Unused before)
    (hused : (∃ held ∈ l.blocks, held.id = b.id) ∨ ∃ earlier ∈ before, earlier.id = b.id) :
    Refuses l fs blocks (.duplicate b.id)
  | unwritten {j : Journal} {cause : JournalFault} (hnamed : ∀ b ∈ blocks, b.id ≠ "")
    (hunused : l.Unused blocks) (hjournal : l.journal = some j)
    (hfailed : (j.append fs (blocks.map Block.filled)).result = .error cause) :
    Refuses l fs blocks (.journal cause)

/-! ### The check -/

theorem Consistent.known_iff (h : l.Consistent) {blocks : List Block} :
    (∀ b ∈ blocks, b.id ∉ l.known) ↔ ∀ b ∈ blocks, ∀ held ∈ l.blocks, held.id ≠ b.id := by
  simp only [h.known, not_exists, not_and, ne_eq]

/-- Blocks pass the check iff they have identifiers that are not in use. -/
theorem Consistent.vet_eq_ok_iff (h : l.Consistent) {vetted : List Block} :
    l.vet blocks = .ok vetted ↔
      (∀ b ∈ blocks, b.id ≠ "") ∧ l.Unused blocks ∧ vetted = blocks.map Block.filled := by
  rw [Ledger.vet_eq_ok_iff, h.known_iff]
  refine ⟨?_, ?_⟩
  · rintro ⟨hnamed, hdistinct, hfresh, hvetted⟩
    exact ⟨hnamed, ⟨hdistinct, hfresh⟩, hvetted⟩
  · rintro ⟨hnamed, ⟨hdistinct, hfresh⟩, hvetted⟩
    exact ⟨hnamed, hdistinct, hfresh, hvetted⟩

/-- Blocks without a name are refused before anything else is looked at. -/
theorem vet_eq_of_unnamed {b : Block} (hb : b ∈ blocks) (hid : b.id = "") :
    l.vet blocks = .error .emptyIdentifier := by
  have hempty : blocks.any (·.id.isEmpty) = true :=
    List.any_eq_true.2 ⟨b, hb, String.isEmpty_iff.2 hid⟩
  rw [vet, if_pos hempty]

/-- Blocks that have identifiers fail the check iff one of these is known or repeated. -/
theorem vet_eq_error_iff_of_named (hnamed : ∀ b ∈ blocks, b.id ≠ "") :
    l.vet blocks = .error e ↔
      ∃ id, firstRepeated l.known (blocks.map (·.id)) = some id ∧ e = .duplicate id := by
  have hempty : ¬ blocks.any (·.id.isEmpty) = true := by
    simpa using hnamed
  rw [vet, if_neg hempty]
  cases firstRepeated l.known (blocks.map (·.id)) with
  | some id => simp [eq_comm]
  | none => simp

/-- The first block with an identifier that is in use. -/
theorem Consistent.firstRepeated_eq_some_iff (h : l.Consistent) {id : String} :
    firstRepeated l.known (blocks.map (·.id)) = some id ↔
      ∃ before b after, blocks = before ++ b :: after ∧ b.id = id ∧ l.Unused before ∧
        ((∃ held ∈ l.blocks, held.id = b.id) ∨ ∃ earlier ∈ before, earlier.id = b.id) := by
  rw [BlockLedger.firstRepeated_eq_some_iff]
  refine ⟨?_, ?_⟩
  · rintro ⟨ids, ids', hids, hdistinct, hfresh, hid⟩
    -- the identifiers in front are those of the blocks in front
    obtain ⟨before, rest, rfl, rfl, hrest⟩ := List.map_eq_append_iff.1 hids
    obtain ⟨b, after, rfl, rfl, rfl⟩ := List.map_eq_cons_iff.1 hrest
    rw [List.forall_mem_map, h.known_iff] at hfresh
    rw [h.known, List.mem_map] at hid
    exact ⟨before, b, after, rfl, rfl, ⟨hdistinct, hfresh⟩, hid⟩
  · rintro ⟨before, b, after, rfl, rfl, hbefore, hused⟩
    refine ⟨before.map (·.id), after.map (·.id), by rw [List.map_append, List.map_cons],
      hbefore.distinct, ?_, ?_⟩
    · rw [List.forall_mem_map, h.known_iff]
      exact hbefore.fresh
    · rw [h.known, List.mem_map]
      exact hused

/-! ### Calls -/

/-- Blocks that pass the check are taken in iff they can be written down. -/
theorem accept_eq_error_iff_of_vet {vetted : List Block} (hvet : l.vet blocks = .ok vetted) :
    (l.accept fs blocks).result = .error e ↔
      ∃ j cause, l.journal = some j ∧ (j.append fs vetted).result = .error cause ∧
        e = .journal cause := by
  cases hjournal : l.journal with
  | none =>
    rw [accept_eq_concluded hvet, record, hjournal]
    simp [concluded]
  | some j =>
    rw [accept_eq_appended hjournal hvet]
    cases happend : (j.append fs vetted).result with
    | error cause => simp [concluded, happend, Except.mapError, eq_comm (a := e)]
    | ok u => simp [concluded, happend, Except.mapError]

/-- **Blocks are refused** for exactly these reasons. -/
theorem Consistent.accept_eq_error_iff (h : l.Consistent) :
    (l.accept fs blocks).result = .error e ↔ l.Refuses fs blocks e := by
  refine ⟨fun hresult => ?_, fun hrefuses => ?_⟩
  · by_cases hnamed : ∀ b ∈ blocks, b.id ≠ ""
    · cases hvet : l.vet blocks with
      | error e' =>
        rw [accept_eq_of_vet_error hvet] at hresult
        cases hresult
        obtain ⟨id, hrepeated, rfl⟩ := (vet_eq_error_iff_of_named hnamed).1 hvet
        obtain ⟨before, b, after, hblocks, rfl, hbefore, hused⟩ :=
          h.firstRepeated_eq_some_iff.1 hrepeated
        exact .repeated hnamed hblocks hbefore hused
      | ok vetted =>
        obtain ⟨-, hunused, rfl⟩ := h.vet_eq_ok_iff.1 hvet
        obtain ⟨j, cause, hjournal, hfailed, rfl⟩ := (accept_eq_error_iff_of_vet hvet).1 hresult
        exact .unwritten hnamed hunused hjournal hfailed
    · obtain ⟨b, hb, hid⟩ : ∃ b ∈ blocks, b.id = "" := by
        simpa using hnamed
      rw [accept_eq_of_vet_error (vet_eq_of_unnamed hb hid)] at hresult
      cases hresult
      exact .unnamed hb hid
  · cases hrefuses with
    | unnamed hb hid => rw [accept_eq_of_vet_error (vet_eq_of_unnamed hb hid)]
    | @repeated before after b hnamed hblocks hbefore hused =>
      have hrepeated := h.firstRepeated_eq_some_iff.2
        ⟨before, b, after, hblocks, rfl, hbefore, hused⟩
      rw [accept_eq_of_vet_error ((vet_eq_error_iff_of_named hnamed).2 ⟨b.id, hrepeated, rfl⟩)]
    | @unwritten j cause hnamed hunused hjournal hfailed =>
      have hvet := h.vet_eq_ok_iff.2 ⟨hnamed, hunused, rfl⟩
      exact (accept_eq_error_iff_of_vet hvet).2 ⟨j, cause, hjournal, hfailed, rfl⟩

/-- Blocks to which none of these reasons applies are not refused. -/
theorem not_refuses (hnamed : ∀ b ∈ blocks, b.id ≠ "") (hunused : l.Unused blocks)
    (hwritten : ∀ j, l.journal = some j →
      (j.append fs (blocks.map Block.filled)).result = .ok ()) :
    ¬ l.Refuses fs blocks e := by
  intro hrefuses
  cases hrefuses with
  | unnamed hb hid => exact hnamed _ hb hid
  | repeated _ hblocks _ hused =>
    rw [hblocks] at hunused
    exact hunused.not_used hused
  | @unwritten j cause _ _ hjournal hfailed =>
    rw [hwritten j hjournal] at hfailed
    cases hfailed

/-- A call is refused when its blocks are. -/
theorem perform_eq_error_iff {c : Call} :
    (l.perform fs c).result = .error e ↔ (l.accept fs c.blocks).result = .error e := by
  rw [perform_eq, Outcome.map]
  cases (l.accept fs c.blocks).result <;> simp [Except.map]

/-! ### What is left behind -/

/-- The journal of a ledger, if there is one, vouches for the bytes in its file. -/
def Vouched (l : Ledger) (fs : FileSystem) : Prop :=
  ∀ j, l.journal = some j → ∃ kept, j.Vouches fs kept

/-- Publishing leaves the journal as it is. -/
theorem concluded_journal (written : Outcome Unit) (vetted : List Block) :
    (concluded written vetted).ledger.journal = written.ledger.journal := by
  rw [concluded]
  split <;> rfl

/-- **Taking in blocks** leaves a ledger with a journal that vouches for its file. -/
theorem Vouched.accept (h : l.Vouched fs) (blocks : List Block) :
    (l.accept fs blocks).ledger.Vouched (l.accept fs blocks).files := by
  cases hvet : l.vet blocks with
  | error e =>
    rw [accept_eq_of_vet_error hvet]
    exact h
  | ok vetted =>
    intro j' hj'
    cases hjournal : l.journal with
    | none =>
      rw [accept_eq_concluded hvet, concluded_journal, record, hjournal] at hj'
      cases hjournal.symm.trans hj'
    | some j =>
      rw [accept_eq_appended hjournal hvet, concluded_journal] at hj'
      rw [accept_eq_appended hjournal hvet, concluded_files]
      obtain ⟨kept, hvouches⟩ := h j hjournal
      cases hj'
      exact ⟨_, hvouches.append vetted⟩

/-- **What a refused call leaves behind.** The ledger holds and publishes what it did. If the call has
been refused for its blocks, all is as it was. Otherwise the journal and the bytes of its file are,
unless the append has spoilt the journal. -/
structure LeavesNoTrace (l : Ledger) (fs : FileSystem) (blocks : List Block) (e : LedgerFault)
    (l' : Ledger) (fs' : FileSystem) : Prop where
  keeps : l.Keeps l'
  untouched : (∀ cause, e ≠ .journal cause) → l' = l ∧ fs' = fs
  unwritten : ∀ j, l.journal = some j →
    (l' = l ∧ fs'.read j.path = fs.read j.path) ∨
      (j.Spoils fs (blocks.map Block.filled) ∧ l'.journal = some { j with poisoned := true })

/-- **Blocks that are refused** leave no trace. -/
theorem Vouched.accept_leavesNoTrace (h : l.Vouched fs)
    (hresult : (l.accept fs blocks).result = .error e) :
    l.LeavesNoTrace fs blocks e (l.accept fs blocks).ledger (l.accept fs blocks).files := by
  have hkeeps : l.Keeps (l.accept fs blocks).ledger := by
    rcases l.accept_cases fs blocks with ⟨-, -, hkeeps⟩ | ⟨hok, -⟩
    · exact hkeeps
    · rw [hok] at hresult
      cases hresult
  cases hvet : l.vet blocks with
  | error e' =>
    rw [accept_eq_of_vet_error hvet]
    exact ⟨Keeps.refl l, fun _ => ⟨rfl, rfl⟩, fun _ _ => .inl ⟨rfl, rfl⟩⟩
  | ok vetted =>
    -- only the journal can have failed
    obtain ⟨-, -, -, rfl⟩ := vet_eq_ok_iff.1 hvet
    obtain ⟨j, cause, hjournal, hfailed, rfl⟩ := (accept_eq_error_iff_of_vet hvet).1 hresult
    refine ⟨hkeeps, fun hother => absurd rfl (hother cause), fun j₀ hj₀ => ?_⟩
    obtain rfl : j = j₀ := Option.some.inj (hjournal.symm.trans hj₀)
    obtain ⟨kept, hvouches⟩ := h j hjournal
    rw [accept_eq_appended hjournal hvet, hfailed]
    rcases hvouches.append_failed_cases (by rw [hfailed]; rfl) with
      ⟨hsame, hread⟩ | ⟨hspoils, hjournal'⟩
    · refine .inl ⟨?_, hread⟩
      change { l with journal := some _ } = l
      rw [hsame, ← hjournal]
    · exact .inr ⟨hspoils, congrArg some hjournal'⟩

/-! ### Runs -/

/-- **A ledger that has just been made**, as an empty one or over a journal that has been opened and
perhaps appended to. -/
inductive Opened : Ledger → FileSystem → Prop
  | new (limit : Nat) (fs : FileSystem) : Opened (.new limit) fs
  | ofJournal {limit : Nat} {files opened : FileSystem} {path : String} {j : Journal} {l : Ledger}
    (hsound : files.Sound) (hopen : Journal.openAt files path = (.ok j, opened))
    (appends : List (List Block))
    (hledger : Ledger.ofJournal limit (j.appendEach opened appends).files
      (j.appendEach opened appends).journal = .ok l) :
    Opened l (j.appendEach opened appends).files

theorem Opened.started (h : Opened l fs) : Started l fs := by
  cases h with
  | new limit => exact .new limit fs
  | ofJournal hsound hopen appends hledger => exact .ofJournal hledger

/-- The ledger over a journal has this journal. -/
theorem journal_of_ofJournal {limit : Nat} {j : Journal} (h : ofJournal limit fs j = .ok l) :
    l.journal = some j := by
  rw [ofJournal] at h
  split at h
  · cases h
  · split at h
    · cases h
    · cases h
      rfl

theorem Opened.vouched (h : Opened l fs) : l.Vouched fs := by
  cases h with
  | new limit =>
    intro j hj
    cases hj
  | ofJournal hsound hopen appends hledger =>
    intro j hj
    rw [journal_of_ofJournal hledger] at hj
    cases hj
    obtain ⟨-, hsettled⟩ := Journal.settled_of_openAt hsound hopen
    exact ⟨_, (hsettled.vouches.appendEach appends).1⟩

/-- The invariant of a run: the ledger is consistent, and its journal vouches for its file. -/
theorem Opened.run_invariant {start : Ledger} (h : Opened start fs) (calls : List Call) :
    (start.run fs calls).ledger.Consistent ∧
      (start.run fs calls).ledger.Vouched (start.run fs calls).files := by
  refine ⟨(consistent_run h.started calls).1,
    run_induction (P := fun r => r.ledger.Vouched r.files) h.vouched (fun r c hr => ?_) calls⟩
  rw [Run.next, perform_eq]
  exact hr.accept c.blocks

/-- **A call is refused for its blocks or because the journal fails, and leaves no trace.** In every
state that calls can lead to, whichever of them have been refused, the reasons for which one more
call is refused are these: a block has no identifier, whatever else is wrong; or an identifier is in
use or repeated, and the first one is told; or the journal cannot write the blocks down. Otherwise it
is accepted. After a refusal all is as before, but for a journal that has been spoilt. -/
theorem run_refused {start : Ledger} (h : Opened start fs) (calls : List Call) (c : Call) :
    let before := start.run fs calls
    let after := before.ledger.perform before.files c
    (∀ e, after.result = .error e ↔ before.ledger.Refuses before.files c.blocks e) ∧
      ((∀ b ∈ c.blocks, b.id ≠ "") → before.ledger.Unused c.blocks →
        (∀ j, before.ledger.journal = some j →
          (j.append before.files (c.blocks.map Block.filled)).result = .ok ()) →
        after.result = .ok (c.answer after.ledger.snapshot)) ∧
      ∀ e, after.result = .error e →
        before.ledger.LeavesNoTrace before.files c.blocks e after.ledger after.files := by
  intro before after
  obtain ⟨hconsistent, hvouched⟩ := h.run_invariant calls
  have hrefused : ∀ e, after.result = .error e ↔
      before.ledger.Refuses before.files c.blocks e := fun _ =>
    perform_eq_error_iff.trans hconsistent.accept_eq_error_iff
  refine ⟨hrefused, fun hnamed hunused hwritten => ?_, fun e he => ?_⟩
  · rcases before.ledger.perform_cases before.files c with ⟨e, herror, -⟩ | ⟨hok, -⟩
    · exact absurd ((hrefused e).1 herror) (not_refuses hnamed hunused hwritten)
    · exact hok
  · have hafter : after = (before.ledger.accept before.files c.blocks).map fun s => c.answer s :=
      perform_eq _ _ _
    rw [hafter]
    exact hvouched.accept_leavesNoTrace (perform_eq_error_iff.1 he)

/-- A block has been taken in, and the last block of a batch has its identifier again: nothing of the
batch stays, in the ledger or in the file. -/
theorem run_refused_batch :
    let a : Block := { id := "a", payload := [1] }
    let b : Block := { id := "b", payload := [2] }
    let c : Call := .submitBatch [b, { a with payload := [3] }]
    let opened := FileSystem.fresh.addFile ["work", "blocks"]
    let start : Ledger := .ofBlocks 1 [] (some ⟨"blocks", .file 0, 0, false⟩)
    let before := start.run opened [.submit a]
    let after := before.ledger.perform before.files c
    Opened start opened ∧ before.ledger.blocks = [a.filled] ∧
      after.result = .error (.duplicate "a") ∧
      after.ledger = before.ledger ∧ after.files = before.files := by
  intro a b c opened start before after
  have hopen : Journal.openAt .fresh "blocks" = (.ok ⟨"blocks", .file 0, 0, false⟩, opened) := by
    rfl
  have hledger : ofJournal 1 opened ⟨"blocks", .file 0, 0, false⟩ = .ok start := by rfl
  have hopened : Opened start opened := .ofJournal FileSystem.sound_fresh hopen [] hledger
  have hblocks : before.ledger.blocks = [a.filled] := by decide +kernel
  obtain ⟨hrefused, -, htrace⟩ := run_refused hopened [.submit a] c
  have hduplicate : after.result = .error (.duplicate "a") := by
    have hlast : c.blocks = [b] ++ { a with payload := [3] } :: [] := rfl
    refine (hrefused _).2 (.repeated (by decide) hlast ⟨by decide, ?_⟩ ?_)
    · rw [hblocks]
      decide
    · rw [hblocks]
      exact .inl ⟨a.filled, List.mem_singleton_self _, rfl⟩
  obtain ⟨-, huntouched, -⟩ := htrace _ hduplicate
  obtain ⟨hledger, hfiles⟩ := huntouched nofun
  exact ⟨hopened, hblocks, hduplicate, hledger, hfiles⟩

end Ledger

end BlockLedger
