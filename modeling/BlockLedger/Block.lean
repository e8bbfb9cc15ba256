import BlockLedger.Block.Metadata

/-!
# Data blocks

A block is a named payload, with the table and the operation it comes from, a time stamp in seconds
and metadata. Only name and payload take part in a tree.

A block without payload can be given one: the compact JSON of its metadata (`Block.fill`,
`Block.filled`). Since that text is never empty, a block is filled at most once.
-/

namespace BlockLedger

/-- **A data block.** -/
structure Block where
  id : String
  payload : Bytes
  table : String := ""
  operation : String := ""
  timestamp : Int64 := 0
  metadata : Metadata := .empty
  deriving DecidableEq

namespace Block

/-! ### Setting metadata -/

/-- The block with a key of its metadata set. -/
def withMetadata (b : Block) (key value : String) : Block :=
  { b with metadata := b.metadata.insert key value }

/-- The block with keys set one after another. -/
def withPairs (b : Block) (pairs : List (String × String)) : Block :=
  pairs.foldl (fun b p => b.withMetadata p.1 p.2) b

@[simp] theorem withPairs_nil (b : Block) : b.withPairs [] = b := rfl

@[simp] theorem withPairs_cons (b : Block) (p : String × String) (ps : List (String × String)) :
    b.withPairs (p :: ps) = (b.withMetadata p.1 p.2).withPairs ps := rfl

/-! ### Filling -/

/-- Whether the block has no payload, so that it is to be filled. -/
def lacksPayload (b : Block) : Bool := b.payload.isEmpty

/-- The payload a block without one is given. -/
def metadataPayload (b : Block) : Bytes :=
  Bytes.ofChars (b.metadata.toJson.write .compact 0)

/-- **The block with a payload**: its own, or else its metadata. -/
def filled (b : Block) : Block :=
  if b.lacksPayload then { b with payload := b.metadataPayload } else b

/-- **Filling a block**: whether it has been given a payload, and the block with its payload. -/
def fill (b : Block) : Bool × Block :=
  if b.lacksPayload then (true, { b with payload := b.metadataPayload }) else (false, b)

theorem fill_eq (b : Block) : b.fill = (b.lacksPayload, b.filled) := by
  unfold fill filled
  cases b.lacksPayload <;> rfl

@[simp] theorem filled_id (b : Block) : b.filled.id = b.id := by
  unfold filled; split <;> rfl

@[simp] theorem filled_table (b : Block) : b.filled.table = b.table := by
  unfold filled; split <;> rfl

theorem metadataPayload_ne_nil (b : Block) : b.metadataPayload ≠ [] := by
  have : ∃ cs, b.metadata.toJson.write .compact 0 = '\x7b' :: cs := by
    rw [Metadata.toJson]
    cases b.metadata.entries with
    | nil => exact ⟨_, rfl⟩
    | cons e es => exact ⟨_, rfl⟩
  obtain ⟨cs, h⟩ := this
  rw [metadataPayload, h]
  simp [String.utf8EncodeChar]

/-- Filling leaves no payload to be filled. -/
theorem lacksPayload_filled (b : Block) : b.filled.lacksPayload = false := by
  unfold filled
  split
  next =>
    simpa [lacksPayload, List.isEmpty_eq_false_iff] using b.metadataPayload_ne_nil
  next h => simpa using h

/-- A second filling changes nothing. -/
theorem filled_filled (b : Block) : b.filled.filled = b.filled := by
  rw [filled, lacksPayload_filled]
  rfl

end Block

end BlockLedger
