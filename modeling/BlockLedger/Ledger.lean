import BlockLedger.Bundle
import BlockLedger.Difference
import BlockLedger.Journal

/-!
# The ledger

The ledger takes in blocks. After every accepted call it builds the tree over all blocks it holds
and publishes it as a snapshot; roots, proofs and differences are always those of one snapshot. A
call with several blocks is accepted as a whole or not at all: no identifier may be empty, known
already or repeated.

A ledger over a journal writes the blocks down before it takes them in, and starts with the blocks
that the journal holds.
-/

namespace BlockLedger

/-! ### Snapshots -/

/-- How many blocks there are of each table. -/
abbrev TableCounts := List (String × Nat)

/-- One more block of a table. -/
def TableCounts.add (table : String) : TableCounts → TableCounts
  | [] => [(table, 1)]
  | c :: cs => if c.1 = table then (c.1, c.2 + 1) :: cs else c :: add table cs

/-- The counts for some blocks. -/
def TableCounts.ofBlocks (blocks : List Block) : TableCounts :=
  blocks.foldl (fun counts b => counts.add b.table) []

/-- The number of blocks of a table. -/
def TableCounts.count (counts : TableCounts) (table : String) : Nat :=
  (counts.lookup table).getD 0

/-- **The state of a ledger after a number of accepted calls**, as it is published. -/
structure Snapshot where
  tree : Tree
  counts : TableCounts
  generation : Nat
  deriving DecidableEq

namespace Snapshot

/-- The snapshot of some blocks. -/
def of (blocks : List Block) (generation : Nat) : Snapshot where
  tree := .ofBlocks blocks
  counts := .ofBlocks blocks
  generation := generation

/-- The number of blocks of a table, or of all blocks. -/
def blockCount (s : Snapshot) : Option String → Nat
  | some table => s.counts.count table
  | none => s.tree.leafCount

end Snapshot

/-! ### Ledgers -/

/-- The most leaves a proof may be asked for, where nothing else is set. -/
def defaultProofLimit : Nat := 4096

/-- **A ledger**: the limit on proofs, the blocks in the order in which they came, their
identifiers, the published snapshot, and the journal, if there is one. -/
structure Ledger where
  limit : Nat
  blocks : List Block
  known : List String
  snapshot : Snapshot
  journal : Option Journal
  deriving DecidableEq

/-- Why a ledger refuses a call. -/
inductive LedgerFault where
  | request (cause : RequestFault)
  | emptyIdentifier
  | duplicate (id : String)
  | tooLarge (requested limit : Nat)
  | journal (cause : JournalFault)
  deriving DecidableEq, Repr

/-- The message for a fault, without what a cause adds. -/
def LedgerFault.summary : LedgerFault → String
  | .request cause => cause.message
  | .emptyIdentifier => Json.Mismatch.message .emptyIdentifier
  | .duplicate id => "block already submitted: " ++ id
  | .tooLarge requested limit =>
    "proof requested for " ++ toString requested ++ " leaves, limit is " ++ toString limit
  | .journal cause => cause.summary

/-- The first identifier that is among the known ones or stands earlier in the list. -/
def firstRepeated (known : List String) : List String → Option String
  | [] => none
  | id :: ids => if known.contains id then some id else firstRepeated (id :: known) ids

namespace Ledger

/-- A ledger that starts with the given blocks. -/
def ofBlocks (limit : Nat) (blocks : List Block) (journal : Option Journal) : Ledger where
  limit := limit
  blocks := blocks
  known := blocks.map (·.id)
  snapshot := .of blocks 0
  journal := journal

/-- An empty ledger without a journal. -/
def new (limit : Nat) : Ledger := ofBlocks limit [] none

/-- **A ledger over a journal**, with the blocks it holds. -/
def ofJournal (limit : Nat) (fs : FileSystem) (j : Journal) : Except LedgerFault Ledger :=
  match j.load fs with
  | .error e => .error (.journal e)
  | .ok blocks =>
    match firstRepeated [] (blocks.map (·.id)) with
    | some id => .error (.duplicate id)
    | none => .ok (ofBlocks limit blocks (some j))

/-! ### Taking in blocks -/

/-- What a call has led to. -/
structure Outcome (α : Type) where
  result : Except LedgerFault α
  ledger : Ledger
  files : FileSystem

/-- Checks blocks and gives payloads to those without one. -/
def vet (l : Ledger) (blocks : List Block) : Except LedgerFault (List Block) :=
  if blocks.any (·.id.isEmpty) then .error .emptyIdentifier
  else match firstRepeated l.known (blocks.map (·.id)) with
    | some id => .error (.duplicate id)
    | none => .ok (blocks.map Block.filled)

/-- Writes blocks to the journal, if there is one. -/
def record (l : Ledger) (fs : FileSystem) (blocks : List Block) : Outcome Unit :=
  match l.journal with
  | none => ⟨.ok (), l, fs⟩
  | some j =>
    let a := j.append fs blocks
    ⟨a.result.mapError .journal, { l with journal := some a.journal }, a.files⟩

/-- Takes in blocks that have been checked and written down, and publishes the new state. -/
def publish (l : Ledger) (blocks : List Block) : Ledger :=
  let all := l.blocks ++ blocks
  { l with
    blocks := all
    known := l.known ++ blocks.map (·.id)
    snapshot := .of all (l.snapshot.generation + 1) }

/-- **Takes in blocks**, all or none. -/
def accept (l : Ledger) (fs : FileSystem) (blocks : List Block) : Outcome Snapshot :=
  match l.vet blocks with
  | .error e => ⟨.error e, l, fs⟩
  | .ok vetted =>
    let written := l.record fs vetted
    match written.result with
    | .error e => ⟨.error e, written.ledger, written.files⟩
    | .ok () =>
      let l' := written.ledger.publish vetted
      ⟨.ok l'.snapshot, l', written.files⟩

/-- The answer to one accepted block. -/
structure Receipt where
  root : Digest
  leaf : Digest
  leafCount : Nat
  deriving DecidableEq

/-- The answer to several accepted blocks. -/
structure BatchReceipt where
  root : Option Digest
  accepted : Nat
  leafCount : Nat
  deriving DecidableEq

/-- The receipt for a block in a snapshot. -/
def receipt (s : Snapshot) (id : String) : Receipt where
  root := s.tree.rootHash?.getD .zero
  leaf := ((s.tree.leaves.find? (·.id = id)).map Leaf.hash).getD .zero
  leafCount := s.tree.leafCount

/-- An outcome with another answer. -/
def Outcome.map {α β : Type} (f : α → β) (o : Outcome α) : Outcome β :=
  ⟨o.result.map f, o.ledger, o.files⟩

/-- **Takes in one block.** -/
def submit (l : Ledger) (fs : FileSystem) (block : Block) : Outcome Receipt :=
  (l.accept fs [block]).map fun s => receipt s block.id

/-- **Takes in several blocks.** -/
def submitBatch (l : Ledger) (fs : FileSystem) (blocks : List Block) : Outcome BatchReceipt :=
  (l.accept fs blocks).map fun s => ⟨s.tree.rootHash?, blocks.length, s.tree.leafCount⟩

/-! ### Asking -/

/-- What is told about the root. -/
structure RootInfo where
  root : Option Digest
  leafCount : Nat
  blockCount : Nat
  generation : Nat
  deriving DecidableEq

/-- The root, with the number of blocks of a table or of all blocks. -/
def rootInfo (l : Ledger) (table : Option String) : RootInfo where
  root := l.snapshot.tree.rootHash?
  leafCount := l.snapshot.tree.leafCount
  blockCount := l.snapshot.blockCount table
  generation := l.snapshot.generation

/-- Answers a request within the limit. -/
def answer {α : Type} (l : Ledger) (ids : List String)
    (f : List String → Except RequestFault α) : Except LedgerFault α :=
  if l.limit < ids.length then .error (.tooLarge ids.length l.limit)
  else (f ids).mapError .request

/-- A proof for the blocks with the given identifiers. -/
def prove (l : Ledger) (ids : List String) : Except LedgerFault InclusionProof :=
  l.answer ids l.snapshot.tree.prove

/-- A bundle for the blocks with the given identifiers. -/
def bundle (l : Ledger) (ids : List String) : Except LedgerFault Bundle :=
  l.answer ids l.snapshot.tree.bundle

/-- The difference to another tree. -/
def difference (l : Ledger) (other : Tree) : Difference := l.snapshot.tree.difference other

end Ledger

/-! ### Settings of a ledger as JSON -/

/-- The limit on proofs as an object with one field. -/
def limitToJson (limit : Nat) : Json.Value := .object [("max_proof_leaves", .nat limit)]

/-- The record that holds the limit on proofs. -/
def limitRecord : Json.Record Nat where
  name := "ServiceConfig"
  blank := defaultProofLimit
  fields := [⟨"max_proof_leaves", false, fun _ => Json.Reader.unsigned⟩]

end BlockLedger
