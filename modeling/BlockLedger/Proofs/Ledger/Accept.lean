import BlockLedger.Ledger
import Mathlib.Data.List.Nodup

/-!
# What a call does to a ledger

All that the two kinds of calls do is said here once, and later proofs do not open them:

* `Ledger.accept_cases`: blocks are refused, and then nothing changes but the journal
  (`Ledger.Keeps`), or they are taken in (`Ledger.Accepts`);
* `Ledger.perform_cases`: the same for a call, together with its answer.

A call is refused for its blocks alone, or because the journal fails. What becomes of the journal and
of the files is left open here.
-/

namespace BlockLedger

/-- No identifier is known or repeated iff none is reported. -/
theorem firstRepeated_eq_none_iff {known ids : List String} :
    firstRepeated known ids = none ↔ ids.Nodup ∧ ∀ id ∈ ids, id ∉ known := by
  induction ids generalizing known with
  | nil => simp [firstRepeated]
  | cons id ids ih =>
    rw [firstRepeated]
    by_cases hid : id ∈ known
    · rw [if_pos (List.contains_iff_mem.2 hid)]
      simp [hid]
    · rw [if_neg fun h => hid (List.contains_iff_mem.1 h), ih, List.nodup_cons]
      refine ⟨?_, ?_⟩
      · rintro ⟨hnodup, hfresh⟩
        -- the identifiers behind this one are compared with it, too
        have hnew : id ∉ ids := fun hmem => hfresh id hmem List.mem_cons_self
        refine ⟨⟨hnew, hnodup⟩, fun other hother => ?_⟩
        rcases List.mem_cons.1 hother with rfl | hother
        · exact hid
        · exact fun hmem => hfresh other hother (List.mem_cons_of_mem _ hmem)
      · rintro ⟨⟨hnew, hnodup⟩, hfresh⟩
        refine ⟨hnodup, fun other hother hmem => ?_⟩
        rcases List.mem_cons.1 hmem with rfl | hmem
        · exact hnew hother
        · exact hfresh other (List.mem_cons_of_mem _ hother) hmem

namespace Ledger

/-! ### Checking and writing down -/

/-- Blocks pass the check iff they have identifiers, no two the same one and none a known one. -/
theorem vet_eq_ok_iff {l : Ledger} {blocks vetted : List Block} :
    l.vet blocks = .ok vetted ↔
      (∀ b ∈ blocks, b.id ≠ "") ∧ (blocks.map (·.id)).Nodup ∧ (∀ b ∈ blocks, b.id ∉ l.known) ∧
        vetted = blocks.map Block.filled := by
  have hempty : blocks.any (·.id.isEmpty) = true ↔ ¬ ∀ b ∈ blocks, b.id ≠ "" := by
    simp
  rw [vet]
  by_cases hnamed : ∀ b ∈ blocks, b.id ≠ ""
  · rw [if_neg fun h => hempty.1 h hnamed]
    cases hrep : firstRepeated l.known (blocks.map (·.id)) with
    | some id =>
      have hsome : ¬ ((blocks.map (·.id)).Nodup ∧ ∀ id ∈ blocks.map (·.id), id ∉ l.known) := by
        rw [← firstRepeated_eq_none_iff, hrep]
        exact Option.some_ne_none id
      rw [List.forall_mem_map] at hsome
      refine ⟨fun h => ?_, ?_⟩
      · cases h
      · rintro ⟨-, hnodup, hfresh, -⟩
        exact absurd ⟨hnodup, hfresh⟩ hsome
    | none =>
      obtain ⟨hnodup, hfresh⟩ := firstRepeated_eq_none_iff.1 hrep
      rw [List.forall_mem_map] at hfresh
      refine ⟨fun h => ?_, ?_⟩
      · cases h
        exact ⟨hnamed, hnodup, hfresh, rfl⟩
      · rintro ⟨-, -, -, rfl⟩
        rfl
  · rw [if_pos (hempty.2 hnamed)]
    refine ⟨fun h => ?_, ?_⟩
    · cases h
    · rintro ⟨h, -⟩
      exact absurd h hnamed

/-- Blocks of which the first one is known already are refused for it. -/
theorem vet_eq_duplicate {l : Ledger} {b : Block} {blocks : List Block}
    (hnamed : ∀ b' ∈ b :: blocks, b'.id ≠ "") (hknown : b.id ∈ l.known) :
    l.vet (b :: blocks) = .error (.duplicate b.id) := by
  have hempty : ¬ (b :: blocks).any (·.id.isEmpty) = true := by
    simpa using hnamed
  rw [vet, if_neg hempty, List.map_cons, firstRepeated, if_pos (List.contains_iff_mem.2 hknown)]

/-- Two ledgers are alike but for their journals. -/
structure Keeps (l l' : Ledger) : Prop where
  limit_eq : l'.limit = l.limit
  blocks_eq : l'.blocks = l.blocks
  known_eq : l'.known = l.known
  snapshot_eq : l'.snapshot = l.snapshot

theorem Keeps.refl (l : Ledger) : l.Keeps l := ⟨rfl, rfl, rfl, rfl⟩

/-- Writing down touches nothing but the journal. -/
theorem keeps_record (l : Ledger) (fs : FileSystem) (blocks : List Block) :
    l.Keeps (l.record fs blocks).ledger := by
  rw [record]
  split
  · exact Keeps.refl l
  · exact ⟨rfl, rfl, rfl, rfl⟩

/-! ### Taking in -/

/-- **Blocks have been taken in**: they could be, they stand behind the blocks that were there, and
the state that is published is that of all of them. -/
structure Accepts (l : Ledger) (blocks : List Block) (l' : Ledger) : Prop where
  named : ∀ b ∈ blocks, b.id ≠ ""
  distinct : (blocks.map (·.id)).Nodup
  fresh : ∀ b ∈ blocks, b.id ∉ l.known
  limit_eq : l'.limit = l.limit
  blocks_eq : l'.blocks = l.blocks ++ blocks.map Block.filled
  known_eq : l'.known = l.known ++ blocks.map (·.id)
  snapshot_eq : l'.snapshot = .of l'.blocks (l.snapshot.generation + 1)

/-- **Taking in blocks** leaves all as it was or takes them in. -/
theorem accept_cases (l : Ledger) (fs : FileSystem) (blocks : List Block) :
    (∃ e, (l.accept fs blocks).result = .error e ∧ l.Keeps (l.accept fs blocks).ledger) ∨
      ((l.accept fs blocks).result = .ok (l.accept fs blocks).ledger.snapshot ∧
        l.Accepts blocks (l.accept fs blocks).ledger) := by
  rw [accept]
  cases hvet : l.vet blocks with
  | error e => exact .inl ⟨e, rfl, Keeps.refl l⟩
  | ok vetted =>
    obtain ⟨hnamed, hdistinct, hfresh, rfl⟩ := vet_eq_ok_iff.1 hvet
    have hkeeps := l.keeps_record fs (blocks.map Block.filled)
    simp only
    -- what has been written down is published, and nothing else can fail
    cases hwrite : (l.record fs (blocks.map Block.filled)).result with
    | error e => exact .inl ⟨e, rfl, hkeeps⟩
    | ok u =>
      refine .inr ⟨rfl, ?_⟩
      exact
        { named := hnamed
          distinct := hdistinct
          fresh := hfresh
          limit_eq := hkeeps.limit_eq
          blocks_eq := by rw [publish, hkeeps.blocks_eq]
          known_eq := by
            rw [publish, hkeeps.known_eq, List.map_map]
            simp
          snapshot_eq := by rw [publish, hkeeps.snapshot_eq] }

/-! ### Calls -/

/-- A call that hands in blocks. -/
inductive Call where
  | submit (block : Block)
  | submitBatch (blocks : List Block)

/-- The answer to an accepted call. -/
inductive Answer where
  | receipt (receipt : Receipt)
  | batch (receipt : BatchReceipt)
  deriving DecidableEq

/-- The blocks a call hands in. -/
def Call.blocks : Call → List Block
  | .submit b => [b]
  | .submitBatch bs => bs

/-- **Performing a call.** -/
def perform (l : Ledger) (fs : FileSystem) : Call → Outcome Answer
  | .submit b => (l.submit fs b).map .receipt
  | .submitBatch bs => (l.submitBatch fs bs).map .batch

/-- The answer to a call that has led to a snapshot. -/
def Call.answer (s : Snapshot) : Call → Answer
  | .submit b => .receipt (Ledger.receipt s b.id)
  | .submitBatch bs => .batch ⟨s.tree.rootHash?, bs.length, s.tree.leafCount⟩

/-- The generation is in no answer. -/
theorem Call.answer_of_generation (c : Call) {blocks : List Block} (generation generation' : Nat) :
    c.answer (.of blocks generation) = c.answer (.of blocks generation') := by
  cases c <;> rfl

theorem Outcome.map_map {α β γ : Type} (f : α → β) (g : β → γ) (o : Outcome α) :
    (o.map f).map g = o.map (g ∘ f) := by
  obtain ⟨result, l, fs⟩ := o
  cases result <;> rfl

/-- Both kinds of calls take in blocks and differ in their answers. -/
theorem perform_eq (l : Ledger) (fs : FileSystem) (c : Call) :
    l.perform fs c = (l.accept fs c.blocks).map fun s => c.answer s := by
  cases c with
  | submit b =>
    rw [perform, submit, Outcome.map_map]
    rfl
  | submitBatch bs =>
    rw [perform, submitBatch, Outcome.map_map]
    rfl

/-- **A call** leaves all as it was or takes in its blocks, and answers with the state it publishes. -/
theorem perform_cases (l : Ledger) (fs : FileSystem) (c : Call) :
    (∃ e, (l.perform fs c).result = .error e ∧ l.Keeps (l.perform fs c).ledger) ∨
      ((l.perform fs c).result = .ok (c.answer (l.perform fs c).ledger.snapshot) ∧
        l.Accepts c.blocks (l.perform fs c).ledger) := by
  rw [perform_eq]
  rcases l.accept_cases fs c.blocks with ⟨e, hresult, hkeeps⟩ | ⟨hresult, haccepts⟩
  · refine .inl ⟨e, ?_, hkeeps⟩
    rw [Outcome.map, hresult]
    rfl
  · refine .inr ⟨?_, haccepts⟩
    rw [Outcome.map, hresult]
    rfl

end Ledger

end BlockLedger
