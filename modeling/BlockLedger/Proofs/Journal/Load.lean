import BlockLedger.Journal
import BlockLedger.Proofs.Json.Record

/-!
# What a journal holds

Every block that is read has an identifier: it is the field of a block that guards this
(`Block.guards_id`). So the blocks a journal is loaded with all have one, whatever the file holds
(`Journal.id_ne_empty_of_load`).
-/

namespace BlockLedger

open Json

theorem yields_readIdentifier : readIdentifier.Yields fun id => id ≠ "" := by
  unfold readIdentifier
  refine Reader.yields_bind fun id => ?_
  split
  · exact Reader.yields_mismatch _ _
  · next h =>
    refine Reader.yields_pure ?_
    rintro rfl
    exact h rfl

namespace Block

/-- The identifier of a block is required and not empty, and the other fields leave it alone. -/
theorem guards_id : record.Guards "id" fun b : Block => b.id ≠ "" := by
  have hsets : ∀ b : Block,
      (do return { b with id := ← readIdentifier } : Reader Block).Yields (·.id ≠ "") := by
    intro b
    exact yields_readIdentifier.bind fun id hid => Reader.yields_pure hid
  -- the fields are gone through one by one; only the first has this key
  refine ⟨⟨_, List.mem_cons_self, rfl⟩, fun f hf hkey => ?_, fun f hf hkey b => ?_,
    fun f hf b hb => ?_⟩
  · simp only [record, List.mem_cons, List.not_mem_nil, or_false] at hf
    rcases hf with rfl | rfl | rfl | rfl | rfl | rfl <;> simp_all
  · simp only [record, List.mem_cons, List.not_mem_nil, or_false] at hf
    rcases hf with rfl | rfl | rfl | rfl | rfl | rfl
    · exact hsets b
    all_goals exact absurd hkey (by decide)
  · simp only [record, List.mem_cons, List.not_mem_nil, or_false] at hf
    rcases hf with rfl | rfl | rfl | rfl | rfl | rfl
    · exact hsets b
    all_goals exact Reader.yields_bind_pure fun _ => hb

theorem id_ne_empty_of_decode {s : String} {b : Block} (h : decode s = .ok b) : b.id ≠ "" :=
  guards_id.yields_read.decode h

end Block

theorem id_ne_empty_of_readLines {number : Nat} {lines : List Bytes} {blocks : List Block}
    (h : readLines number lines = .ok blocks) : ∀ b ∈ blocks, b.id ≠ "" := by
  induction lines generalizing number blocks with
  | nil =>
    cases h
    intro b hb
    cases hb
  | cons line rest ih =>
    rw [readLines] at h
    split at h
    · cases h
    · split at h
      · exact ih h
      · split at h
        · cases h
        · next block hblock =>
          split at h
          · cases h
          · next blocks' hrest =>
            cases h
            intro b hb
            rcases List.mem_cons.1 hb with rfl | hb
            · exact Block.id_ne_empty_of_decode hblock
            · exact ih hrest b hb

/-- **The blocks of a journal have identifiers.** -/
theorem Journal.id_ne_empty_of_load {fs : FileSystem} {j : Journal} {blocks : List Block}
    (h : j.load fs = .ok blocks) : ∀ b ∈ blocks, b.id ≠ "" := by
  rw [Journal.load, readBlocks] at h
  split at h
  · cases h
  · split at h
    · cases h
    · cases h
    · next hread =>
      cases h
      exact id_ne_empty_of_readLines hread

end BlockLedger
