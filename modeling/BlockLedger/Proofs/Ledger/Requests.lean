import BlockLedger.Proofs.Ledger.Invariant
import BlockLedger.Proofs.Request.Bundles

/-!
# What a ledger proves

The blocks of a ledger are those it has started with and, behind them, those of the accepted calls
with their payloads (`Ledger.blocks_run`). Each of them can be proved at any time. A request is
refused if it is too long for the limit, or for one of the reasons that a tree over these blocks
gives (`LedgerFault.ArisesFor`). Otherwise the answer is a bundle with the blocks asked for, in the
order in which they came, and it is accepted against the root that is published
(`Ledger.run_provable`).

The tree that is published knows identifiers and payloads, and a bundle looks its leaves up by their
identifiers. That these are the leaves of the blocks asked for, each once, rests on the invariant of
a ledger: no identifier is repeated, whether the blocks come from a journal or from calls.
-/

namespace BlockLedger

/-- **Why a ledger with some blocks refuses a request**: it is longer than the limit, or the tree
over the blocks refuses it. -/
inductive LedgerFault.ArisesFor (limit : Nat) (held : List Block) (ids : List String) :
    LedgerFault → Prop
  | tooLarge (hlong : limit < ids.length) : ArisesFor limit held ids (.tooLarge ids.length limit)
  | request {f : RequestFault} (hshort : ids.length ≤ limit)
    (hf : f.Arises (held.map (·.id)) ids) : ArisesFor limit held ids (.request f)

namespace Ledger

/-! ### The blocks after a run -/

/-- The blocks of the calls that have been accepted, in order. -/
def taken (calls : List Call) (answers : List (Except LedgerFault Answer)) : List Block :=
  ((calls.zip answers).filter (·.2.isOk)).flatMap (·.1.blocks)

theorem length_answers (l : Ledger) (fs : FileSystem) (calls : List Call) :
    (l.run fs calls).answers.length = calls.length := by
  induction calls using List.reverseRecOn with
  | nil => rfl
  | append_singleton calls c ih =>
    rw [run_concat, Run.next, List.length_append, List.length_append, ih]
    rfl

/-- One more call adds its blocks if it is accepted. -/
theorem taken_concat {calls : List Call} {answers : List (Except LedgerFault Answer)}
    (hlength : answers.length = calls.length) (c : Call) (answer : Except LedgerFault Answer) :
    taken (calls ++ [c]) (answers ++ [answer]) =
      taken calls answers ++ if answer.isOk then c.blocks else [] := by
  rw [taken, List.zip_append hlength.symm, List.filter_append, List.flatMap_append, taken]
  cases answer with
  | error e => rfl
  | ok a => exact congrArg _ (List.append_nil c.blocks)

/-- **The blocks of a ledger** are those from the start and those of the accepted calls, which have
been given payloads if they had none. -/
theorem blocks_run (start : Ledger) (fs : FileSystem) (calls : List Call) :
    (start.run fs calls).ledger.blocks =
      start.blocks ++ (taken calls (start.run fs calls).answers).map Block.filled := by
  induction calls using List.reverseRecOn with
  | nil => exact (List.append_nil _).symm
  | append_singleton calls c ih =>
    rw [run_concat, Run.next]
    rcases (start.run fs calls).ledger.perform_cases (start.run fs calls).files c with
      ⟨e, hresult, hkeeps⟩ | ⟨hresult, haccepts⟩
    · rw [taken_concat (length_answers start fs calls), hresult, hkeeps.blocks_eq, ih]
      exact congrArg _ (congrArg _ (List.append_nil _).symm)
    · rw [taken_concat (length_answers start fs calls), hresult, haccepts.blocks_eq, ih,
        List.append_assoc, ← List.map_append]
      rfl

/-- The limit on proofs never changes. -/
theorem limit_run (start : Ledger) (fs : FileSystem) (calls : List Call) :
    (start.run fs calls).ledger.limit = start.limit := by
  refine run_induction (P := fun r => r.ledger.limit = start.limit) rfl (fun r c hr => ?_) calls
  rcases r.ledger.perform_cases r.files c with ⟨e, -, hkeeps⟩ | ⟨-, haccepts⟩
  · exact hkeeps.limit_eq.trans hr
  · exact haccepts.limit_eq.trans hr

/-! ### Answers to requests -/

/-- A request is refused for its length, or as the tree refuses it. -/
theorem answer_eq_error_iff {α : Type} {l : Ledger} {ids : List String}
    {f : List String → Except RequestFault α} {e : LedgerFault} :
    l.answer ids f = .error e ↔
      (l.limit < ids.length ∧ e = .tooLarge ids.length l.limit) ∨
        (ids.length ≤ l.limit ∧ ∃ cause, f ids = .error cause ∧ e = .request cause) := by
  rw [answer]
  by_cases hlong : l.limit < ids.length
  · rw [if_pos hlong]
    simp [hlong, eq_comm]
  · rw [if_neg hlong]
    have hshort : ids.length ≤ l.limit := Nat.not_lt.1 hlong
    cases f ids with
    | error cause => simp [hlong, hshort, Except.mapError, eq_comm]
    | ok a => simp [hlong, Except.mapError]

/-- A request that is not too long is answered by the tree. -/
theorem answer_eq_ok {α : Type} {l : Ledger} {ids : List String} (hshort : ids.length ≤ l.limit)
    {f : List String → Except RequestFault α} {a : α} (h : f ids = .ok a) :
    l.answer ids f = .ok a := by
  rw [answer, if_neg (Nat.not_lt.2 hshort), h]
  rfl

/-- The identifiers of the leaves are those of the blocks. -/
theorem ids_leaves_ofBlocks (blocks : List Block) :
    (Tree.ofBlocks blocks).leaves.map Leaf.id = blocks.map (·.id) := by
  rw [Tree.leaves_ofBlocks, List.map_map]
  rfl

/-- The leaves of the blocks with some identifiers. -/
theorem held_ofBlocks (blocks : List Block) (ids : List String) :
    ((Tree.ofBlocks blocks).leaves.filter fun l => decide (l.id ∈ ids)).map
        (fun l => (l.id, l.payload)) =
      (blocks.filter fun b => decide (b.id ∈ ids)).map fun b => (b.id, b.payload) := by
  rw [Tree.leaves_ofBlocks, List.filter_map, List.map_map]
  rfl

variable {l : Ledger} {ids : List String} {e : LedgerFault}

/-- A request for a proof is refused for the reasons that the blocks give. -/
theorem Consistent.prove_eq_error_iff (h : l.Consistent) :
    l.prove ids = .error e ↔ e.ArisesFor l.limit l.blocks ids := by
  rw [prove, answer_eq_error_iff, h.tree]
  simp only [Tree.prove_eq_error_iff, ids_leaves_ofBlocks]
  refine ⟨?_, fun harises => ?_⟩
  · rintro (⟨hlong, rfl⟩ | ⟨hshort, f, hf, rfl⟩)
    · exact .tooLarge hlong
    · exact .request hshort hf
  · cases harises with
    | tooLarge hlong => exact .inl ⟨hlong, rfl⟩
    | @request f hshort hf => exact .inr ⟨hshort, f, hf, rfl⟩

/-- A request for a bundle is refused when one for a proof is. -/
theorem bundle_eq_error_iff : l.bundle ids = .error e ↔ l.prove ids = .error e := by
  rw [bundle, prove, answer_eq_error_iff, answer_eq_error_iff]
  simp only [Tree.bundle_eq_error_iff]

/-- **A ledger answers all other requests** with a bundle of the blocks asked for. -/
theorem Consistent.exists_bundle (h : l.Consistent) (hshort : ids.length ≤ l.limit)
    (hne : ids ≠ []) (hin : ∀ id ∈ ids, ∃ b ∈ l.blocks, b.id = id) :
    ∃ bundle, l.bundle ids = .ok bundle ∧ l.prove ids = .ok bundle.proof ∧
      l.snapshot.tree.rootHash? = some bundle.root ∧
      bundle.leaves =
        (l.blocks.filter fun b => decide (b.id ∈ ids)).map (fun b => (b.id, b.payload)) ∧
      bundle.leaves.length ≤ ids.length ∧
      ∀ root, bundle.verifyAgainst root = .ok (decide (root = bundle.root)) := by
  have hids := ids_leaves_ofBlocks l.blocks
  have hin' : ∀ id ∈ ids, id ∈ (Tree.ofBlocks l.blocks).leaves.map Leaf.id := by
    rw [hids]
    exact fun id hid => List.mem_map.2 (hin id hid)
  have hdistinct : ((Tree.ofBlocks l.blocks).leaves.map Leaf.id).Nodup := by
    rw [hids]
    exact h.distinct
  obtain ⟨bundle, hbundle, hprove, hroot, hleaves, hverify⟩ := Tree.exists_bundle hne hin'
  have hlength := (Tree.ofBlocks l.blocks).length_leavesAt_le ids
  rw [← h.tree] at hbundle hprove hroot
  refine ⟨bundle, answer_eq_ok hshort hbundle, answer_eq_ok hshort hprove, hroot, ?_, ?_, hverify⟩
  · rw [hleaves, Tree.leavesAt_of_nodup hdistinct, held_ofBlocks]
  · rwa [hleaves, List.length_map]

/-! ### Runs -/

/-- **Every block that is held can be proved**, after any calls, and nothing else can. Held are the
blocks the ledger has started with and those of the accepted calls. Requests for a bundle and for a
proof are refused for the same reasons. Otherwise the bundle has the blocks asked for as its leaves,
each once and in the order in which they came, and it is accepted against the root that is published
then and against no other. -/
theorem run_provable {start : Ledger} {fs : FileSystem} (h : Started start fs) (calls : List Call)
    (ids : List String) :
    let l := (start.run fs calls).ledger
    let held := start.blocks ++ (taken calls (start.run fs calls).answers).map Block.filled
    (∀ e, l.bundle ids = .error e ↔ e.ArisesFor start.limit held ids) ∧
      (∀ e, l.prove ids = .error e ↔ e.ArisesFor start.limit held ids) ∧
      (ids.length ≤ start.limit → ids ≠ [] → (∀ id ∈ ids, ∃ b ∈ held, b.id = id) →
        ∃ bundle, l.bundle ids = .ok bundle ∧ l.prove ids = .ok bundle.proof ∧
          (l.rootInfo none).root = some bundle.root ∧
          bundle.leaves =
            (held.filter fun b => decide (b.id ∈ ids)).map (fun b => (b.id, b.payload)) ∧
          (bundle.leaves.map (·.1)).Nodup ∧ bundle.leaves.length ≤ start.limit ∧
          bundle.verify = .ok true ∧
          ∀ root, bundle.verifyAgainst root = .ok (decide (root = bundle.root))) := by
  intro l held
  obtain ⟨hconsistent, -⟩ := consistent_run h calls
  have hheld : l.blocks = held := blocks_run start fs calls
  have hlimit : l.limit = start.limit := limit_run start fs calls
  have hrefused : ∀ e, l.prove ids = .error e ↔ e.ArisesFor start.limit held ids := by
    intro e
    rw [← hheld, ← hlimit]
    exact hconsistent.prove_eq_error_iff
  refine ⟨fun e => bundle_eq_error_iff.trans (hrefused e), hrefused, fun hshort hne hin => ?_⟩
  rw [← hlimit] at hshort ⊢
  rw [← hheld] at hin ⊢
  obtain ⟨bundle, hbundle, hprove, hroot, hleaves, hlength, hverify⟩ :=
    hconsistent.exists_bundle hshort hne hin
  refine ⟨bundle, hbundle, hprove, hroot, hleaves, ?_, hlength.trans hshort, ?_, hverify⟩
  · -- the identifiers of the leaves are among those of the blocks, which are not repeated
    rw [hleaves, List.map_map]
    exact hconsistent.distinct.sublist (List.filter_sublist.map _)
  · rw [Bundle.verify, hverify, decide_eq_true rfl]

/-- A block from a journal and a block without payload that has been submitted, after a call that
has been refused. They are asked for in another order and with a repetition. -/
theorem run_provable_replayed :
    let a : Block := { id := "a", payload := [1] }
    let b : Block := { id := "b", payload := [] }
    let files : FileSystem := { FileSystem.fresh.addFile ["work", "blocks"] with
      contents := [recordsOf [a]] }
    let j : Journal := ⟨"blocks", .file 0, (recordsOf [a]).length, false⟩
    let start : Ledger := .ofBlocks 3 [a] (some j)
    let l := (start.run files [.submit a, .submit b]).ledger
    Started start files ∧
      (∃ bundle, l.bundle ["b", "a", "b"] = .ok bundle ∧
        bundle.leaves = [("a", [1]), ("b", b.metadataPayload)] ∧ bundle.verify = .ok true) ∧
      l.bundle ["a", "d", "c"] = .error (.request (.notFound "d")) := by
  intro a b files j start l
  have hload : j.load files = .ok [a] := by decide +kernel
  have hopen : Ledger.ofJournal 3 files j = .ok start := by
    rw [ofJournal, hload]
    rfl
  have hstarted : Started start files := .ofJournal hopen
  have htaken : taken [.submit a, .submit b] (start.run files [.submit a, .submit b]).answers =
      [b] := by decide +kernel
  obtain ⟨-, -, hanswered⟩ := run_provable hstarted [.submit a, .submit b] ["b", "a", "b"]
  obtain ⟨hrefused, -⟩ := run_provable hstarted [.submit a, .submit b] ["a", "d", "c"]
  rw [htaken] at hanswered hrefused
  obtain ⟨bundle, hbundle, -, -, hleaves, -, -, hverify, -⟩ :=
    hanswered (by decide) (by decide) (by decide +kernel)
  refine ⟨hstarted, ⟨bundle, hbundle, ?_, hverify⟩, ?_⟩
  · rw [hleaves]
    decide +kernel
  · have hids : ["a", "d", "c"] = ["a"] ++ "d" :: ["c"] := rfl
    refine (hrefused _).2 (.request (by decide) ?_)
    exact .notFound (by decide) hids (by decide +kernel) (by decide +kernel)

end Ledger

end BlockLedger
