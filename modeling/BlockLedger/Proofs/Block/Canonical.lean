import BlockLedger.Proofs.Block.RoundTrip

/-!
# The payload made of metadata

A block without payload is given the JSON of its metadata. That text stands for the map and for
nothing else: maps with the same values are written alike, in whatever order their keys have been
set (`Metadata.ext_get?`), and the text is read back as the map (`Metadata.decode_compact`), so that
no quote, backslash or brace inside a key or a value makes two maps look the same.

What a block holds after some pairs is said without the map itself: of the pairs with a key the last
one counts, and a key that none of them has keeps its value (`Block.valueAfter?`).
-/

namespace BlockLedger

open Json

/-! ### Maps and their texts -/

namespace Metadata

/-- **Metadata are read back** from their text. -/
theorem decode_compact (m : Metadata) : Json.decode read m.toJson.compact = .ok m :=
  (takes_read m .compact 0).decode

/-- Different maps have different texts. -/
theorem compact_inj {m m' : Metadata} : m.toJson.compact = m'.toJson.compact ↔ m = m' := by
  constructor
  · intro h
    have hread := m.decode_compact
    rw [h, m'.decode_compact] at hread
    exact (Except.ok.inj hread).symm
  · rintro rfl
    rfl

theorem ext_get?_iff {m m' : Metadata} : m = m' ↔ ∀ key, m.get? key = m'.get? key :=
  ⟨fun h _ => h ▸ rfl, ext_get?⟩

end Metadata

namespace Block

theorem metadataPayload_eq (b : Block) :
    b.metadataPayload = Bytes.ofText b.metadata.toJson.compact := by
  rw [metadataPayload, Bytes.ofText, Value.compact, String.toList_ofList]

/-- The payloads made of two blocks are the same exactly if the blocks have the same metadata. -/
theorem metadataPayload_inj {b b' : Block} :
    b.metadataPayload = b'.metadataPayload ↔ b.metadata = b'.metadata := by
  rw [metadataPayload_eq, metadataPayload_eq, ← Metadata.compact_inj]
  constructor
  · intro h
    have htext := Bytes.text?_ofText b.metadata.toJson.compact
    rw [h, Bytes.text?_ofText] at htext
    exact (Option.some.inj htext).symm
  · exact fun h => congrArg Bytes.ofText h

/-! ### Keys set one after another -/

/-- The value of a key once the pairs have been set: the one it was given last, or else the one it
has. -/
def valueAfter? (b : Block) (pairs : List (String × String)) (key : String) : Option String :=
  (pairs.reverse.lookup key).or (b.metadata.get? key)

@[simp] theorem payload_withPairs (b : Block) (pairs : List (String × String)) :
    (b.withPairs pairs).payload = b.payload := by
  induction pairs generalizing b with
  | nil => rw [withPairs_nil]
  | cons p ps ih => rw [withPairs_cons, ih, withMetadata]

/-- **Of several values for one key the last one counts.** -/
theorem get?_withPairs (b : Block) (pairs : List (String × String)) (key : String) :
    (b.withPairs pairs).metadata.get? key = b.valueAfter? pairs key := by
  induction pairs generalizing b with
  | nil => rw [withPairs_nil, valueAfter?, List.reverse_nil, List.lookup_nil, Option.none_or]
  | cons p ps ih =>
    have hp : (b.withMetadata p.1 p.2).metadata.get? key =
        ([p].lookup key).or (b.metadata.get? key) := by
      rw [withMetadata, Metadata.get?_insert, Metadata.lookup_cons]
      split <;> rfl
    -- the first pair comes last in the reversed list, so every later pair with its key hides it
    rw [withPairs_cons, ih, valueAfter?, hp, valueAfter?, List.reverse_cons, List.lookup_append,
      Option.or_assoc]

/-- Two blocks have the same metadata after their pairs exactly if every key has the same value. -/
theorem metadata_withPairs_eq_iff {b b' : Block} {pairs pairs' : List (String × String)} :
    (b.withPairs pairs).metadata = (b'.withPairs pairs').metadata ↔
      ∀ key, b.valueAfter? pairs key = b'.valueAfter? pairs' key := by
  simp only [Metadata.ext_get?_iff, get?_withPairs]

/-! ### Filled blocks -/

theorem lacksPayload_withPairs {b : Block} (hb : b.payload = [])
    (pairs : List (String × String)) : (b.withPairs pairs).lacksPayload = true := by
  rw [lacksPayload, payload_withPairs, hb]
  rfl

/-- Filling a block without payload. -/
theorem fill_withPairs {b : Block} (hb : b.payload = []) (pairs : List (String × String)) :
    (b.withPairs pairs).fill =
      (true, { b.withPairs pairs with payload := (b.withPairs pairs).metadataPayload }) := by
  rw [fill_eq, filled, lacksPayload_withPairs hb, if_pos rfl]

/-- **The payload of the block is the text of a map**: it is not empty, it is the text in which the
keys of the map stand in ascending order, and it is decoded to the values of the map. A block with
such a payload is not filled again. -/
structure Encodes (b : Block) (values : String → Option String) : Prop where
  payload_ne_nil : b.payload ≠ []
  decodes : ∃ m : Metadata, b.payload = Bytes.ofText m.toJson.compact ∧
    (∃ text, Bytes.text? b.payload = some text ∧ Json.decode Metadata.read text = .ok m) ∧
    ∀ key, m.get? key = values key
  fill_eq_self : b.fill = (false, b)

/-- A block with the payload made of its metadata encodes these. -/
theorem encodes_of_payload_eq {b : Block} (h : b.payload = b.metadataPayload) :
    b.Encodes b.metadata.get? where
  payload_ne_nil := h ▸ b.metadataPayload_ne_nil
  decodes := by
    rw [h, metadataPayload_eq]
    exact ⟨b.metadata, rfl, ⟨_, Bytes.text?_ofText _, b.metadata.decode_compact⟩, fun _ => rfl⟩
  fill_eq_self := by
    have hlacks : b.lacksPayload = false := by
      rw [lacksPayload, h, List.isEmpty_eq_false_iff]
      exact b.metadataPayload_ne_nil
    rw [fill_eq, filled, hlacks]
    rfl

/-- **Payloads made of metadata are canonical.** Set any pairs in two blocks without payload and
fill them: their payloads are the same exactly if every key has got the same value in both, of
several values the last one, in whatever order the keys have been set. The payload is never empty
and is decoded to these values, and filling the block again does nothing. -/
theorem fill_canonical {b b' : Block} (hb : b.payload = []) (hb' : b'.payload = [])
    (pairs pairs' : List (String × String)) :
    ((b.withPairs pairs).fill.2.payload = (b'.withPairs pairs').fill.2.payload ↔
        ∀ key, b.valueAfter? pairs key = b'.valueAfter? pairs' key) ∧
      (b.withPairs pairs).fill.1 = true ∧
      (b.withPairs pairs).fill.2.Encodes (b.valueAfter? pairs) := by
  rw [fill_withPairs hb, fill_withPairs hb']
  refine ⟨metadataPayload_inj.trans metadata_withPairs_eq_iff, rfl, ?_⟩
  have hvalues : b.valueAfter? pairs = (b.withPairs pairs).metadata.get? :=
    funext fun key => (get?_withPairs b pairs key).symm
  rw [hvalues]
  exact encodes_of_payload_eq rfl

/-- A value that spells what would stand between two members is not taken for two members. -/
theorem fill_canonical_quotes :
    let b : Block := { id := "a", payload := [] }
    let joined := [("k", "1\",\"l\":\"2")]
    let apart := [("l", "0"), ("k", "1"), ("l", "2")]
    b.payload = [] ∧
      (b.withPairs joined).fill.2.payload ≠ (b.withPairs apart).fill.2.payload ∧
      (b.withPairs apart).fill.2.Encodes (b.valueAfter? apart) ∧
      b.valueAfter? apart "l" = some "2" := by
  intro b joined apart
  have hb : b.payload = [] := rfl
  have hdistinct := (fill_canonical hb hb joined apart).1
  have hencodes := (fill_canonical hb hb apart apart).2.2
  refine ⟨hb, fun h => ?_, hencodes, by decide⟩
  have hkey := hdistinct.1 h "l"
  exact absurd hkey (by decide)

/-- The keys stand in their own order, not in that of the pairs. -/
example :
    (withPairs { id := "a", payload := [] } [("zeta", "1"), ("alpha", "2")]).fill.2.payload =
      Bytes.ofText "\x7b\"alpha\":\"2\",\"zeta\":\"1\"\x7d" := by
  decide +kernel

end Block

end BlockLedger
