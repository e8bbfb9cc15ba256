import BlockLedger.Proofs.Journal.Load
import BlockLedger.Proofs.Ledger.Run
import BlockLedger.Proofs.Ledger.Snapshot

/-!
# The invariant of a ledger

The blocks of a ledger, its known identifiers and the published snapshot are kept apart and updated
one after the other. They always fit together (`Ledger.Consistent`): the identifiers are those of
the blocks, no two of which are the same, and the snapshot is that of the blocks.

* `Ledger.consistent_of_started`: a ledger that has just been made is consistent, also when a
  journal has been read;
* `Ledger.Consistent.perform`: a call preserves this;
* `Ledger.run_consistent`: so it holds after every call of every run, and with it what a call adds
  to the blocks and what it answers.

The answer to one block looks up the leaf of that block by its identifier. It finds the right one
only because no other block has the identifier.
-/

namespace BlockLedger

/-- Filling changes nothing but an empty payload. -/
theorem Block.filled_eq (b : Block) :
    b.filled = if b.payload = [] then { b with payload := b.metadataPayload } else b := by
  simp only [filled, lacksPayload, List.isEmpty_iff]

theorem Block.payload_filled (b : Block) :
    b.filled.payload = if b.payload = [] then b.metadataPayload else b.payload := by
  rw [filled_eq]
  split <;> rfl

namespace Ledger

/-! ### Consistent ledgers -/

/-- **The parts of a ledger fit together.** -/
structure Consistent (l : Ledger) : Prop where
  distinct : (l.blocks.map (·.id)).Nodup
  named : ∀ b ∈ l.blocks, b.id ≠ ""
  known : ∀ id, id ∈ l.known ↔ ∃ b ∈ l.blocks, b.id = id
  tree : l.snapshot.tree = .ofBlocks l.blocks
  count : ∀ table, l.snapshot.blockCount (some table) = l.blocks.countP (·.table = table)
  total : l.snapshot.blockCount none = l.blocks.length

/-- A ledger is consistent if its snapshot is that of its blocks. -/
theorem consistent_of_snapshot {l : Ledger} (hdistinct : (l.blocks.map (·.id)).Nodup)
    (hnamed : ∀ b ∈ l.blocks, b.id ≠ "") (hknown : ∀ id, id ∈ l.known ↔ ∃ b ∈ l.blocks, b.id = id)
    {generation : Nat} (hsnapshot : l.snapshot = .of l.blocks generation) : l.Consistent where
  distinct := hdistinct
  named := hnamed
  known := hknown
  tree := by rw [hsnapshot, Snapshot.of]
  count table := by
    rw [hsnapshot, Snapshot.of, Snapshot.blockCount]
    exact TableCounts.count_ofBlocks _ _
  total := by
    rw [hsnapshot, Snapshot.of, Snapshot.blockCount]
    exact Tree.leafCount_ofBlocks _

theorem consistent_ofBlocks {limit : Nat} {blocks : List Block} {journal : Option Journal}
    (hdistinct : (blocks.map (·.id)).Nodup) (hnamed : ∀ b ∈ blocks, b.id ≠ "") :
    (ofBlocks limit blocks journal).Consistent :=
  consistent_of_snapshot hdistinct hnamed (fun _ => List.mem_map) rfl

/-- **A ledger that has just been made** is consistent, and no call has been accepted. -/
theorem consistent_of_started {l : Ledger} {fs : FileSystem} (h : Started l fs) :
    l.Consistent ∧ l.snapshot.generation = 0 := by
  cases h with
  | new limit => exact ⟨consistent_ofBlocks List.nodup_nil (fun b hb => by cases hb), rfl⟩
  | @ofJournal limit _ j _ h =>
    rw [ofJournal] at h
    cases hload : j.load fs with
    | error e =>
      rw [hload] at h
      cases h
    | ok blocks =>
      rw [hload] at h
      simp only at h
      cases hrep : firstRepeated [] (blocks.map (·.id)) with
      | some id =>
        rw [hrep] at h
        cases h
      | none =>
        rw [hrep] at h
        cases h
        -- the journal has been searched for repetitions, and reading it has refused empty identifiers
        exact ⟨consistent_ofBlocks (firstRepeated_eq_none_iff.1 hrep).1
          (Journal.id_ne_empty_of_load hload), rfl⟩

theorem Keeps.consistent {l l' : Ledger} (h : l.Keeps l') (hl : l.Consistent) : l'.Consistent where
  distinct := h.blocks_eq ▸ hl.distinct
  named := h.blocks_eq ▸ hl.named
  known := by
    rw [h.known_eq, h.blocks_eq]
    exact hl.known
  tree := by rw [h.snapshot_eq, h.blocks_eq, hl.tree]
  count table := by rw [h.snapshot_eq, h.blocks_eq, hl.count]
  total := by rw [h.snapshot_eq, h.blocks_eq, hl.total]

/-- The identifiers after blocks have been taken in. -/
theorem Accepts.ids_eq {l l' : Ledger} {blocks : List Block} (h : l.Accepts blocks l') :
    l'.blocks.map (·.id) = l.blocks.map (·.id) ++ blocks.map (·.id) := by
  rw [h.blocks_eq, List.map_append, List.map_map]
  simp

theorem Accepts.consistent {l l' : Ledger} {blocks : List Block} (h : l.Accepts blocks l')
    (hl : l.Consistent) : l'.Consistent := by
  have hdistinct : (l'.blocks.map (·.id)).Nodup := by
    rw [h.ids_eq, List.nodup_append]
    refine ⟨hl.distinct, h.distinct, fun id hold id' hnew heq => ?_⟩
    obtain ⟨b, hb, rfl⟩ := List.mem_map.1 hnew
    -- what is not known is not the identifier of a block that was there
    exact h.fresh b hb ((hl.known b.id).2 (List.mem_map.1 (heq ▸ hold)))
  have hnamed : ∀ b ∈ l'.blocks, b.id ≠ "" := by
    intro b hb
    rw [h.blocks_eq, List.mem_append] at hb
    rcases hb with hb | hb
    · exact hl.named b hb
    · obtain ⟨b', hb', rfl⟩ := List.mem_map.1 hb
      rw [Block.filled_id]
      exact h.named b' hb'
  -- blocks and identifiers have grown by the same list, and the snapshot is that of the new blocks
  refine consistent_of_snapshot hdistinct hnamed (fun id => ?_) h.snapshot_eq
  rw [← List.mem_map, h.ids_eq, h.known_eq, List.mem_append, List.mem_append, hl.known,
    ← List.mem_map]

/-- **A call preserves consistency.** -/
theorem Consistent.perform {l : Ledger} (h : l.Consistent) (fs : FileSystem) (c : Call) :
    (l.perform fs c).ledger.Consistent := by
  rcases l.perform_cases fs c with ⟨e, -, hkeeps⟩ | ⟨-, haccepts⟩
  · exact hkeeps.consistent h
  · exact haccepts.consistent h

/-! ### What is taken in, and what is answered -/

/-- A block that is taken in is the only one with its identifier. -/
theorem Accepts.filter_eq {l l' : Ledger} {blocks : List Block} (h : l.Accepts blocks l')
    (hl' : l'.Consistent) {b : Block} (hb : b ∈ blocks) :
    b.filled ∈ l'.blocks ∧ l'.blocks.filter (·.id = b.id) = [b.filled] := by
  have hmem : b.filled ∈ l'.blocks := by
    rw [h.blocks_eq]
    exact List.mem_append_right _ (List.mem_map_of_mem hb)
  have hfilter := filter_eq_singleton hl'.distinct hmem
  rw [Block.filled_id] at hfilter
  exact ⟨hmem, hfilter⟩

/-- **What an answer says** of the ledger after the call: the root and the number of leaves of its
tree, and for a single block the digest of the payload it has there. -/
def Answer.Describes (l : Ledger) : Call → Answer → Prop
  | .submit b, .receipt r =>
    l.snapshot.tree.rootHash? = some r.root ∧ r.leafCount = l.snapshot.tree.leafCount ∧
      r.leaf = .ofPayload (if b.payload = [] then b.metadataPayload else b.payload)
  | .submitBatch bs, .batch r =>
    r.root = l.snapshot.tree.rootHash? ∧ r.leafCount = l.snapshot.tree.leafCount ∧
      r.accepted = bs.length
  | _, _ => False

/-- The answer to an accepted call describes the ledger after it. -/
theorem Accepts.describes {l l' : Ledger} {c : Call} (h : l.Accepts c.blocks l')
    (hl' : l'.Consistent) : (c.answer l'.snapshot).Describes l' c := by
  cases c with
  | submitBatch bs => exact ⟨rfl, rfl, rfl⟩
  | submit b =>
    -- the block has been taken in, and no other one has its identifier
    obtain ⟨hmem, -⟩ := h.filter_eq hl' (b := b) (List.mem_singleton_self b)
    have hleaves : l'.snapshot.tree.leaves ≠ [] := by
      rw [hl'.tree, Tree.leaves_ofBlocks]
      exact List.ne_nil_of_mem (List.mem_map_of_mem hmem)
    obtain ⟨d, hd⟩ := Tree.exists_rootHash? hleaves
    have hleaf := Tree.find?_leaves_ofBlocks hl'.distinct hmem
    rw [← hl'.tree, Block.filled_id] at hleaf
    refine ⟨?_, rfl, ?_⟩
    · rw [receipt, hd, Option.getD_some]
    · rw [receipt, hleaf, Option.map_some, Option.getD_some, ← Block.payload_filled]
      rfl

/-- Taking in blocks adds one to the number of accepted calls. -/
theorem generation_perform (l : Ledger) (fs : FileSystem) (c : Call) :
    (l.perform fs c).ledger.snapshot.generation
      = l.snapshot.generation + if (l.perform fs c).result.isOk then 1 else 0 := by
  rcases l.perform_cases fs c with ⟨e, hresult, hkeeps⟩ | ⟨hresult, haccepts⟩
  · rw [hresult, hkeeps.snapshot_eq]
    rfl
  · rw [hresult, haccepts.snapshot_eq]
    rfl

/-- A call leaves the blocks that were there in front. -/
theorem blocks_prefix_perform (l : Ledger) (fs : FileSystem) (c : Call) :
    l.blocks <+: (l.perform fs c).ledger.blocks := by
  rcases l.perform_cases fs c with ⟨e, -, hkeeps⟩ | ⟨-, haccepts⟩
  · exact ⟨[], by rw [List.append_nil, hkeeps.blocks_eq]⟩
  · rw [haccepts.blocks_eq]
    exact List.prefix_append _ _

/-! ### Runs -/

/-- The invariant of a run: the ledger is consistent, and its generation is the number of accepted
calls. -/
theorem consistent_run {start : Ledger} {fs : FileSystem} (h : Started start fs)
    (calls : List Call) :
    (start.run fs calls).ledger.Consistent ∧
      (start.run fs calls).ledger.snapshot.generation
        = (start.run fs calls).answers.countP (·.isOk) := by
  obtain ⟨hstart, hzero⟩ := consistent_of_started h
  refine run_induction (P := fun r => r.ledger.Consistent ∧
    r.ledger.snapshot.generation = r.answers.countP (·.isOk)) ⟨hstart, hzero⟩ ?_ calls
  rintro r c ⟨hr, hcount⟩
  -- one more answer, which counts iff the generation has gone up
  refine ⟨hr.perform r.files c, ?_⟩
  rw [Run.next, generation_perform, hcount, List.countP_append, List.countP_singleton]

/-- **After every call of every run** the ledger is consistent, its generation is the number of
accepted calls, and all blocks are where they were. The blocks of an accepted call stand behind
them, each once and with a payload, and the answer describes the ledger. -/
theorem run_consistent {start : Ledger} {fs : FileSystem} (h : Started start fs)
    (calls : List Call) (c : Call) :
    let before := start.run fs calls
    let after := before.ledger.perform before.files c
    start.run fs (calls ++ [c])
        = ⟨before.answers ++ [after.result], after.ledger, after.files⟩ ∧
      after.ledger.Consistent ∧
      after.ledger.snapshot.generation
        = (before.answers ++ [after.result]).countP (·.isOk) ∧
      before.ledger.blocks <+: after.ledger.blocks ∧
      (∀ id q, before.ledger.snapshot.tree.positionOf? id = some q →
        after.ledger.snapshot.tree.positionOf? id = some q) ∧
      ∀ a, after.result = .ok a →
        after.ledger.blocks = before.ledger.blocks ++ c.blocks.map Block.filled ∧
        (∀ b ∈ c.blocks, after.ledger.blocks.filter (·.id = b.id)
          = [if b.payload = [] then { b with payload := b.metadataPayload } else b]) ∧
        a.Describes after.ledger c := by
  intro before after
  have hbefore : before.ledger.Consistent := (consistent_run h calls).1
  have hrun : start.run fs (calls ++ [c])
      = ⟨before.answers ++ [after.result], after.ledger, after.files⟩ := run_concat start fs calls c
  obtain ⟨hafter, hgeneration⟩ := consistent_run h (calls ++ [c])
  rw [hrun] at hafter hgeneration
  have hprefix : before.ledger.blocks <+: after.ledger.blocks :=
    blocks_prefix_perform before.ledger before.files c
  refine ⟨hrun, hafter, hgeneration, hprefix, fun id q hq => ?_, fun a ha => ?_⟩
  · rw [hbefore.tree] at hq
    rw [hafter.tree]
    exact Tree.positionOf?_of_prefix hprefix hq
  · rcases before.ledger.perform_cases before.files c with ⟨e, hresult, -⟩ | ⟨hresult, haccepts⟩
    · rw [show after.result = .error e from hresult] at ha
      cases ha
    · rw [show after.result = .ok (c.answer after.ledger.snapshot) from hresult] at ha
      cases ha
      refine ⟨haccepts.blocks_eq, fun b hb => ?_, haccepts.describes hafter⟩
      rw [(haccepts.filter_eq hafter hb).2, Block.filled_eq]

/-- A journal with a block is opened. A block is accepted, a batch that repeats it is refused, and
an append fails and is taken back. Then a block without payload is taken in. -/
theorem run_consistent_mixed :
    let z : Block := { id := "z", payload := [9] }
    let a : Block := { id := "a", payload := [1] }
    let b : Block := { id := "b", payload := [] }
    let befalls : FileSystem :=
      { FileSystem.fresh with mishaps := [none, some ⟨3, .noSpace, .done⟩] }
    let files := (befalls.addFile ["work", "blocks"]).setBytes (.file 0) z.toRecord
    let j : Journal := ⟨"blocks", .file 0, z.toRecord.length, false⟩
    let start : Ledger := .ofBlocks 1 [z] (some j)
    let before := start.run files [.submit a, .submitBatch [b, a], .submit b]
    let after := before.ledger.perform before.files (.submit b)
    (Journal.openAt files "blocks" = (.ok j, files) ∧ Started start files) ∧
      before.answers.tail =
        [.error (.duplicate "a"), .error (.journal (.files "blocks" .noSpace))] ∧
      before.ledger.blocks = [z, a] ∧
      after.ledger.Consistent ∧ after.ledger.snapshot.generation = 2 ∧
      after.ledger.blocks = [z, a, { b with payload := b.metadataPayload }] := by
  intro z a b befalls files j start before after
  have hopen : Journal.openAt files "blocks" = (.ok j, files) := by decide +kernel
  have hload : j.load files = .ok [z] := by decide +kernel
  have hledger : ofJournal 1 files j = .ok start := by
    rw [ofJournal, hload]
    rfl
  have hstarted : Started start files := .ofJournal hledger
  have hfailed : before.answers.tail =
      [.error (.duplicate "a"), .error (.journal (.files "blocks" .noSpace))] := by decide +kernel
  have hblocks : before.ledger.blocks = [z, a] := by decide +kernel
  have hcount : (before.answers ++ [after.result]).countP (·.isOk) = 2 := by decide +kernel
  obtain ⟨-, hconsistent, hgeneration, -, -, haccepted⟩ :=
    run_consistent hstarted [.submit a, .submitBatch [b, a], .submit b] (.submit b)
  have hok : after.result.isOk = true := by decide +kernel
  refine ⟨⟨hopen, hstarted⟩, hfailed, hblocks, hconsistent, hgeneration.trans hcount, ?_⟩
  cases hresult : after.result with
  | error e =>
    rw [hresult] at hok
    cases hok
  | ok answer =>
    obtain ⟨hnew, -⟩ := haccepted answer hresult
    refine hnew.trans ?_
    change before.ledger.blocks ++ [b.filled] = _
    rw [hblocks]
    rfl

end Ledger

end BlockLedger
