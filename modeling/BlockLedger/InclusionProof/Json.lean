import BlockLedger.Block.Json
import BlockLedger.InclusionProof

/-!
# Proofs as JSON

A proof is written as nested objects. The source of a value is the word for a derived one, or an
object whose one key says whether a leaf's name or a digest follows.
-/

namespace BlockLedger

/-! ### Writing -/

/-- The source of a value. -/
def Slot.toJson : Slot → Json.Value
  | .leaf id => .object [("leaf", .text id)]
  | .derived => .text "derived"
  | .supplied h => .object [("supplied", h.toJson)]

/-- An entry of a row. -/
def Entry.toJson (e : Entry) : Json.Value :=
  .object [("position", .nat e.position), ("slot", e.slot.toJson)]

/-- A row. -/
def Level.toJson (l : Level) : Json.Value :=
  .object [("width", .nat l.width), ("entries", .array (l.entries.map Entry.toJson))]

/-- A proof. -/
def InclusionProof.toJson (p : InclusionProof) : Json.Value :=
  .object [("levels", .array (p.levels.map Level.toJson))]

/-! ### Reading -/

/-- The kinds of sources. -/
inductive SlotKind where
  | leaf
  | derived
  | supplied
  deriving DecidableEq, Repr

/-- The word for a kind. -/
def SlotKind.key : SlotKind → String
  | .leaf => "leaf"
  | .derived => "derived"
  | .supplied => "supplied"

/-- All kinds. -/
def SlotKind.all : List SlotKind := [.leaf, .derived, .supplied]

/-- Reads the word for a kind, which is a string and nothing else. -/
def SlotKind.read : Json.Reader SlotKind := do
  let key ← Json.Reader.key
  match SlotKind.all.find? (·.key = key) with
  | some k => pure k
  | none => Json.Reader.mismatch (.unknownVariant key (SlotKind.all.map SlotKind.key))

/-- Reads what belongs to a kind. -/
def SlotKind.readContent : SlotKind → Json.Reader Slot
  | .leaf => return .leaf (← readIdentifier)
  | .derived => do
    Json.Reader.unit
    return .derived
  | .supplied => return .supplied (← readDigest)

/-- Reads the source of a value. -/
def Slot.read : Json.Reader Slot := do
  match ← Json.Reader.peek with
  | none => Json.Reader.fail .cutShort
  | some '\x7b' =>
    Json.Reader.advance
    let kind ← SlotKind.read
    Json.Reader.colon
    let slot ← kind.readContent
    match ← Json.Reader.peek with
    | none => Json.Reader.fail .cutShort
    | some '\x7d' =>
      Json.Reader.advance
      return slot
    | some _ => Json.Reader.fail .malformed
  | some '"' =>
    match ← SlotKind.read with
    | .derived => return .derived
    | _ => Json.Reader.mismatch (.wrongType "newtype variant")
  | some _ => Json.Reader.fail .malformed

/-- The fields of an entry. -/
def Entry.record : Json.Record Entry where
  name := "ProofEntry"
  blank := ⟨0, .derived⟩
  fields := [
    ⟨"position", true, fun e => do return { e with position := ← Json.Reader.unsigned }⟩,
    ⟨"slot", true, fun e => do return { e with slot := ← Slot.read }⟩]

/-- The fields of a row. -/
def Level.record : Json.Record Level where
  name := "ProofLevel"
  blank := ⟨0, []⟩
  fields := [
    ⟨"width", true, fun l => do return { l with width := ← Json.Reader.unsigned }⟩,
    ⟨"entries", true, fun l => do
      return { l with entries := ← Json.Reader.array Entry.record.read }⟩]

namespace InclusionProof

/-- The fields of a proof. -/
def record : Json.Record InclusionProof where
  name := "MerkleProof"
  blank := ⟨[]⟩
  fields := [
    ⟨"levels", true, fun _ => return ⟨← Json.Reader.array Level.record.read⟩⟩]

/-- The proof on one line. -/
def encode (p : InclusionProof) : String := p.toJson.compact

/-- **Reading a proof.** -/
def decode (s : String) : Except Json.Fault InclusionProof := Json.decode record.read s

end InclusionProof

end BlockLedger
