import BlockLedger.Journal.Record
import BlockLedger.Proofs.Block.RoundTrip
import BlockLedger.Proofs.Json.Printable
import BlockLedger.Proofs.Text.Pieces

/-!
# Reading records that have been appended

A byte string is complete if no record in it has been cut off (`Complete`). Behind a complete byte
string the lines start afresh (`Complete.linesOf_append`), so what has been there is read as before,
whatever it is, and what is appended is read as if it stood alone.

A record that has been written is one line, which is not blank and holds its block
(`linesOf_record`, `readLines_records`, `Block.record_readBack`). So records appended to a complete
byte string add their blocks to those that were read from it (`readRecords_append`).
-/

namespace BlockLedger

/-! ### Complete byte strings -/

/-- **No record has been cut off**: there is nothing behind the last line feed. -/
def Complete (bytes : Bytes) : Prop := bytes = [] ∨ ∃ front, bytes = front ++ [lineFeed]

theorem complete_nil : Complete [] := .inl rfl

theorem Complete.append {a b : Bytes} (ha : Complete a) (hb : Complete b) : Complete (a ++ b) := by
  rcases hb with rfl | ⟨front, rfl⟩
  · rw [List.append_nil]
    exact ha
  · exact .inr ⟨a ++ front, (List.append_assoc _ _ _).symm⟩

/-- What is left of a byte string is complete. -/
theorem complete_completePart (bytes : Bytes) : Complete (completePart bytes) := by
  rw [completePart]
  cases hrest : bytes.reverse.dropWhile (· ≠ lineFeed) with
  | nil => exact .inl rfl
  | cons b rest =>
    -- the first byte that has not been dropped is a line feed
    have hb := List.head?_dropWhile_not (fun x => decide (x ≠ lineFeed)) bytes.reverse
    rw [hrest] at hb
    have hfeed : b = lineFeed := by simpa using hb
    exact .inr ⟨rest.reverse, by rw [List.reverse_cons, hfeed]⟩

/-- A complete byte string is left as it is. -/
theorem Complete.completePart_eq {bytes : Bytes} (h : Complete bytes) :
    completePart bytes = bytes := by
  rcases h with rfl | ⟨front, rfl⟩
  · rfl
  · rw [completePart, List.reverse_append, List.reverse_singleton, List.singleton_append,
      List.dropWhile_cons, if_neg (by simp), List.reverse_cons, List.reverse_reverse]

/-- Only bytes at the end are cut off. -/
theorem take_length_completePart (bytes : Bytes) :
    bytes.take (completePart bytes).length = completePart bytes := by
  have hsuffix : bytes.reverse.dropWhile (· ≠ lineFeed) <:+ bytes.reverse := List.dropWhile_suffix _
  have hprefix : completePart bytes <+: bytes := by
    rw [completePart, ← List.reverse_suffix, List.reverse_reverse]
    exact hsuffix
  exact (List.prefix_iff_eq_take.1 hprefix).symm

/-! ### Lines -/

/-- A line feed ends a line, and the lines behind it start afresh. -/
theorem linesOf_append_feed (a b : Bytes) :
    linesOf (a ++ lineFeed :: b) = (pieces lineFeed a).map withoutReturn ++ linesOf b := by
  have hne : pieces lineFeed b ≠ [] := piecesAfter_ne_nil _ _ _
  have hpos : 0 < (pieces lineFeed b).length := List.length_pos_of_ne_nil hne
  have hdrop : (pieces lineFeed a ++ pieces lineFeed b).length - 1 =
      (pieces lineFeed a).length + ((pieces lineFeed b).length - 1) := by
    rw [List.length_append]
    omega
  rw [linesOf, linesOf, pieces_append, List.dropLast_append_of_ne_nil hne, List.map_append, hdrop,
    List.drop_length_add_append, List.append_assoc]

/-- **Behind a complete byte string** the lines start afresh. -/
theorem Complete.linesOf_append {a : Bytes} (h : Complete a) (b : Bytes) :
    linesOf (a ++ b) = linesOf a ++ linesOf b := by
  rcases h with rfl | ⟨front, rfl⟩
  · rfl
  · have hnil : linesOf [] = [] := rfl
    rw [List.append_assoc, List.singleton_append, linesOf_append_feed, linesOf_append_feed, hnil,
      List.append_nil]

/-! ### Records that have been written -/

/-- A block is written without control characters. -/
theorem Block.le_of_mem_encode {b : Block} {byte : UInt8} (h : byte ∈ Bytes.ofText b.encode) :
    0x20 ≤ byte.toNat := by
  rw [encode, Json.Value.compact, Bytes.ofText, String.toList_ofList] at h
  exact Bytes.le_of_mem_ofChars (by decide) (Json.printable_write b.toJson 0) h

theorem Block.lineFeed_notMem_encode (b : Block) : lineFeed ∉ Bytes.ofText b.encode := fun h =>
  absurd (Block.le_of_mem_encode h) (by decide)

/-- The record of a block is one line. -/
theorem linesOf_record (b : Block) : linesOf b.toRecord = [Bytes.ofText b.encode] := by
  have hreturn : withoutReturn (Bytes.ofText b.encode) = Bytes.ofText b.encode := by
    rw [withoutReturn, if_neg]
    intro h
    exact absurd (Block.le_of_mem_encode (List.mem_of_getLast? h)) (by decide)
  have hnil : linesOf [] = [] := rfl
  rw [Block.toRecord, linesOf_append_feed, pieces_of_notMem b.lineFeed_notMem_encode,
    List.map_singleton, hreturn, hnil, List.append_nil]

theorem complete_record (b : Block) : Complete b.toRecord := .inr ⟨_, rfl⟩

theorem complete_recordsOf (blocks : List Block) : Complete (recordsOf blocks) := by
  induction blocks with
  | nil => exact complete_nil
  | cons b blocks ih => exact (complete_record b).append ih

/-- The records of some blocks are their lines. -/
theorem linesOf_recordsOf (blocks : List Block) :
    linesOf (recordsOf blocks) = blocks.map fun b => Bytes.ofText b.encode := by
  induction blocks with
  | nil => rfl
  | cons b blocks ih =>
    rw [recordsOf, List.flatMap_cons, ← recordsOf, (complete_record b).linesOf_append,
      linesOf_record, ih]
    rfl

/-- A block is not written as a blank text. -/
theorem Block.isBlank_encode (b : Block) : Text.isBlank b.encode = false := by
  obtain ⟨cs, hcs⟩ : ∃ cs, b.toJson.write .compact 0 = '\x7b' :: cs := ⟨_, rfl⟩
  rw [encode, Json.Value.compact, Text.isBlank, String.toList_ofList, hcs]
  rfl

/-! ### Reading -/

/-- Lines that can be read are read one part after the other. -/
theorem readLines_append {number : Nat} {xs ys : List Bytes} {bs cs : List Block}
    (hxs : readLines number xs = .ok bs) (hys : readLines (number + xs.length) ys = .ok cs) :
    readLines number (xs ++ ys) = .ok (bs ++ cs) := by
  induction xs generalizing number bs with
  | nil =>
    cases hxs
    exact hys
  | cons x xs ih =>
    have hnumber : number + (x :: xs).length = number + 1 + xs.length := by
      rw [List.length_cons]
      omega
    rw [hnumber] at hys
    rw [readLines] at hxs
    rw [List.cons_append, readLines]
    split at hxs
    · cases hxs
    · next text htext =>
      split at hxs
      · next hblank =>
        rw [if_pos hblank]
        exact ih hxs hys
      · next hblank =>
        rw [if_neg hblank]
        split at hxs
        · cases hxs
        · next block hblock =>
          split at hxs
          · cases hxs
          · next blocks hrest =>
            cases hxs
            rw [ih hrest hys]
            rfl

/-- The lines of records that have been written hold their blocks. -/
theorem readLines_records {blocks : List Block} (h : ∀ b ∈ blocks, b.id ≠ "") (number : Nat) :
    readLines number (blocks.map fun b => Bytes.ofText b.encode) = .ok blocks := by
  induction blocks generalizing number with
  | nil => rfl
  | cons b blocks ih =>
    obtain ⟨hb, hblocks⟩ := List.forall_mem_cons.1 h
    rw [List.map_cons, readLines, Bytes.text?_ofText]
    simp only
    rw [if_neg (by rw [Block.isBlank_encode]; exact Bool.false_ne_true), Block.decode_encode hb,
      ih hblocks]

/-- **Records appended to a complete byte string** add their blocks to those that it holds. -/
theorem readRecords_append {bytes : Bytes} {old new : List Block} (hcomplete : Complete bytes)
    (hold : readRecords bytes = .ok old) (hnew : ∀ b ∈ new, b.id ≠ "") :
    readRecords (bytes ++ recordsOf new) = .ok (old ++ new) := by
  rw [readRecords, hcomplete.linesOf_append, linesOf_recordsOf]
  exact readLines_append hold (readLines_records hnew _)

/-- **A block is read back from its record, and the record is one line.** Whatever its texts, its
payload and its metadata are: if it has an identifier, its JSON is decoded to this very block. No byte
of it is a control character, so behind complete records it makes one line, whatever follows. -/
theorem Block.record_readBack {b : Block} (hid : b.id ≠ "") :
    decode b.encode = .ok b ∧
      (∀ byte ∈ Bytes.ofText b.encode, 0x20 ≤ byte.toNat) ∧
      Bytes.text? (Bytes.ofText b.encode) = some b.encode ∧
      ∀ front behind, Complete front →
        linesOf (front ++ b.toRecord ++ behind) =
          linesOf front ++ Bytes.ofText b.encode :: linesOf behind := by
  refine ⟨decode_encode hid, fun _ hbyte => le_of_mem_encode hbyte, Bytes.text?_ofText _,
    fun front behind hfront => ?_⟩
  rw [(hfront.append (complete_record b)).linesOf_append, hfront.linesOf_append, linesOf_record,
    List.append_assoc, List.singleton_append]

/-- Quotes, backslashes, control characters, characters of several bytes, an empty key and the least
time stamp, behind a record that is there. -/
theorem Block.record_readBack_control :
    let b : Block :=
      { id := "\x00\n\"\\é𝄞", payload := [0, 10, 255], table := "\t", operation := "\r"
        timestamp := Int64.minValue
        metadata := .ofList [("\n", ""), ("", "\x1f\x7f")] }
    let front := Block.toRecord { id := "a", payload := [] }
    b.id ≠ "" ∧ decode b.encode = .ok b ∧
      linesOf (front ++ b.toRecord) = linesOf front ++ [Bytes.ofText b.encode] := by
  intro b front
  have hid : b.id ≠ "" := by decide
  obtain ⟨hdecode, -, -, hline⟩ := record_readBack hid
  have hbehind := hline front [] (complete_record _)
  rw [List.append_nil] at hbehind
  exact ⟨hid, hdecode, hbehind⟩

end BlockLedger
