import BlockLedger.InclusionProof.Json
import BlockLedger.InclusionProof.Replay

/-!
# Proof bundles

A bundle is what a checker needs: a root, the leaves with their payloads, and the proof that ties
them together. It can be checked against its own root or against one the checker trusts.
-/

namespace BlockLedger

/-- **A proof with its leaves and its root.** -/
structure Bundle where
  root : Digest
  leaves : List HeldLeaf
  proof : InclusionProof
  deriving DecidableEq

namespace Bundle

/-- Whether the leaves belong to the tree with the given root. -/
def verifyAgainst (b : Bundle) (root : Digest) : Except ReplayFault Bool :=
  b.proof.verify root b.leaves

/-- Whether the leaves belong to the tree with the bundle's own root. -/
def verify (b : Bundle) : Except ReplayFault Bool := b.verifyAgainst b.root

/-! ### JSON -/

/-- A leaf as an object. -/
def leafToJson (l : HeldLeaf) : Json.Value :=
  .object [("id", .text l.1), ("payload", .text (Hex.text l.2))]

/-- The bundle as an object. -/
def toJson (b : Bundle) : Json.Value :=
  .object [
    ("root_hash", b.root.toJson),
    ("leaves", .array (b.leaves.map leafToJson)),
    ("proof", b.proof.toJson)]

/-- The bundle on one line. -/
def encode (b : Bundle) : String := b.toJson.compact

/-- The fields of a leaf. -/
def leafRecord : Json.Record HeldLeaf where
  name := "BundledLeaf"
  blank := ("", [])
  fields := [
    ⟨"id", true, fun l => return (← readIdentifier, l.2)⟩,
    ⟨"payload", true, fun l => return (l.1, ← readPayload)⟩]

/-- The fields of a bundle. -/
def record : Json.Record Bundle where
  name := "ProofBundle"
  blank := ⟨.zero, [], ⟨[]⟩⟩
  fields := [
    ⟨"root_hash", true, fun b => do return { b with root := ← readDigest }⟩,
    ⟨"leaves", true, fun b => do
      return { b with leaves := ← Json.Reader.array leafRecord.read }⟩,
    ⟨"proof", true, fun b => do return { b with proof := ← InclusionProof.record.read }⟩]

/-- **Reading a bundle.** -/
def decode (s : String) : Except Json.Fault Bundle := Json.decode record.read s

end Bundle

/-- The first leaf with an identifier, as a checker holds it. -/
def Tree.held? (t : Tree) (id : String) : Option HeldLeaf :=
  (t.leaves.find? (·.id = id)).map fun l => (l.id, l.payload)

/-- **The bundle for the leaves with the given identifiers.** -/
def Tree.bundle (t : Tree) (ids : List String) : Except RequestFault Bundle :=
  match t.prove ids with
  | .error f => .error f
  | .ok p => .ok ⟨t.rootHash?.getD .zero, p.leafIds.filterMap t.held?, p⟩

end BlockLedger
