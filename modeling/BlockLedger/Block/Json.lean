import BlockLedger.Block

/-!
# Blocks as JSON

A block is written as an object with all its fields in order, the payload in hexadecimal. Name and
payload must be there when it is read, and the name must not be empty; the other fields may be
missing.
-/

namespace BlockLedger

/-! ### Values shared with proofs and bundles -/

/-- Reads an identifier, which must not be empty. -/
def readIdentifier : Json.Reader String := do
  let id ← Json.Reader.text "a string"
  if id.isEmpty then Json.Reader.mismatch .emptyIdentifier else pure id

/-- Reads a byte string in hexadecimal. -/
def readPayload : Json.Reader Bytes := do
  let digits ← Json.Reader.text "a hex encoded string"
  match Hex.decode (Bytes.ofText digits) with
  | .error f => Json.Reader.mismatch (.notHex f)
  | .ok b => pure b

/-- What is said to be expected where a digest should stand. -/
def Digest.expected : String := "a lowercase hex encoded 32-byte hash"

/-- Reads a digest. -/
def readDigest : Json.Reader Digest := do
  let digits ← Json.Reader.text Digest.expected
  match Digest.parse digits with
  | .error (.wrongLength n) => Json.Reader.mismatch (.wrongLength n Digest.expected)
  | .error (.notHex f) => Json.Reader.mismatch (.notDigest f)
  | .ok d => pure d

/-- A digest as a value. -/
def Digest.toJson (d : Digest) : Json.Value := .text d.hex

/-! ### Blocks -/

namespace Block

/-- The block as an object. -/
def toJson (b : Block) : Json.Value :=
  .object [
    ("id", .text b.id),
    ("payload", .text (Hex.text b.payload)),
    ("table_name", .text b.table),
    ("operation", .text b.operation),
    ("timestamp", .integer b.timestamp.toInt),
    ("metadata", b.metadata.toJson)]

/-- The block on one line. -/
def encode (b : Block) : String := b.toJson.compact

/-- The fields of a block. -/
def record : Json.Record Block where
  name := "DataBlock"
  blank := { id := "", payload := [] }
  fields := [
    ⟨"id", true, fun b => do return { b with id := ← readIdentifier }⟩,
    ⟨"payload", true, fun b => do return { b with payload := ← readPayload }⟩,
    ⟨"table_name", false, fun b => do return { b with table := ← Json.Reader.text "a string" }⟩,
    ⟨"operation", false, fun b => do
      return { b with operation := ← Json.Reader.text "a string" }⟩,
    ⟨"timestamp", false, fun b => do return { b with timestamp := ← Json.Reader.signed }⟩,
    ⟨"metadata", false, fun b => do return { b with metadata := ← Metadata.read }⟩]

/-- **Reading a block.** -/
def decode (s : String) : Except Json.Fault Block := Json.decode record.read s

end Block

end BlockLedger
