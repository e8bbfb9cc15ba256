import BlockLedger.Block.Json
import BlockLedger.Proofs.Json.Written
import BlockLedger.Proofs.Text.Encoding

/-!
# Reading a block that has been written

The members of the object that is written for a block are the fields of the record that is read, in
the same order. Each of them is taken by its own reader (`Record.takes_member`), and the block that
is put together from them is the one that has been written (`Block.takes_read`). It has to have an
identifier, since the reader refuses an empty one.

Metadata are written in the order of their keys. Each entry that is read is then put behind the ones
before it, so that the map is built up again entry by entry (`Metadata.takes_members`).
-/

namespace BlockLedger

open Json

/-! ### Metadata -/

namespace Metadata

/-- An entry whose key is larger than all others is put at the end. -/
theorem insertEntry_of_lt {key value : String} {es : List (String × String)}
    (h : ∀ e ∈ es, e.1 < key) : insertEntry key value es = es ++ [(key, value)] := by
  induction es with
  | nil => rfl
  | cons e es ih =>
    obtain ⟨he, hes⟩ := List.forall_mem_cons.1 h
    have hnot : ¬ key < e.1 := fun hlt => String.lt_irrefl _ (String.lt_trans hlt he)
    have hne : key ≠ e.1 := fun heq => String.lt_irrefl _ (heq ▸ he)
    rw [insertEntry, if_neg hnot, if_neg hne, ih hes, List.cons_append]

/-- The entries behind some that have been read already. -/
theorem takes_members {m m' : Metadata} {es : List (String × String)}
    (h : m'.entries = m.entries ++ es) (layout : Layout) (depth : Nat) :
    Reader.TakesMembers readMember layout depth m (es.map fun e => (e.1, .text e.2)) m' := by
  induction es generalizing m with
  | nil =>
    have heq : m = m' := ext (h.trans (List.append_nil _)).symm
    rw [heq]
    exact .nil m'
  | cons e es ih =>
    -- the keys are in ascending order, so this entry goes behind those that have been read
    have hlt : ∀ d ∈ m.entries, d.1 < e.1 := by
      intro d hd
      have hsorted := m'.sorted
      rw [h, List.pairwise_append] at hsorted
      exact hsorted.2.2 d hd e List.mem_cons_self
    have hentries : m'.entries = (m.insert e.1 e.2).entries ++ es := by
      change m'.entries = insertEntry e.1 e.2 m.entries ++ es
      rw [insertEntry_of_lt hlt, List.append_assoc, List.singleton_append, h]
    have htext := Reader.takes_text "a string" e.2 layout depth
    have hvalue : (Reader.text "a string" >>= fun value => pure (m.insert e.1 value)).Takes
        ((Value.text e.2).write layout depth) (m.insert e.1 e.2) := htext.bind_pure rfl
    exact .cons (Reader.takes_colon hvalue layout) (ih hentries)

/-- **Metadata that have been written** are read back. -/
theorem takes_read (m : Metadata) (layout : Layout) (depth : Nat) :
    read.Takes (m.toJson.write layout depth) m := by
  intro blanks rest hblanks hrest
  have hmembers : Reader.TakesMembers readMember layout (depth + 1) empty
      (m.entries.map fun e => (e.1, .text e.2)) m := takes_members rfl layout (depth + 1)
  obtain ⟨cs, hcs, hread⟩ := Reader.objectBody_written hmembers rest
  rw [toJson, hcs, read, Reader.bind_of_ok (Reader.peek_append hblanks rfl cs)]
  exact hread

end Metadata

/-! ### Identifiers and payloads -/

theorem takes_readIdentifier {id : String} (h : id ≠ "") (layout : Layout) (depth : Nat) :
    readIdentifier.Takes ((Value.text id).write layout depth) id := by
  refine (Reader.takes_text "a string" id layout depth).bind_pure ?_
  rw [if_neg]
  rw [String.isEmpty_iff]
  exact h

theorem takes_readPayload (payload : Bytes) (layout : Layout) (depth : Nat) :
    readPayload.Takes ((Value.text (Hex.text payload)).write layout depth) payload := by
  refine (Reader.takes_text "a hex encoded string" (Hex.text payload) layout depth).bind_pure ?_
  rw [Hex.decode_text]

/-! ### Records -/

namespace Json.Record

variable {α : Type} {r : Record α}

/-- A member of a record is taken if its field has not been read and the reader of the field takes
its value. -/
theorem takes_member {f : Field α} {a b : α} {read : List String} {key : String}
    (hfind : r.fields.find? (·.key = key) = some f) (hread : key ∉ read) {layout : Layout}
    {cs : List Char} (h : (f.read a).Takes cs b) :
    (r.member (a, read) key).Takes (layout.colon ++ cs) (b, key :: read) := by
  have hvalue : (f.read a >>= fun b => pure (b, key :: read)).Takes cs (b, key :: read) :=
    h.bind_pure rfl
  have hmember : r.member (a, read) key =
      Reader.colon >>= fun _ => f.read a >>= fun b => pure (b, key :: read) := by
    have hnot : ¬ read.contains key = true := fun hmem => hread (List.contains_iff_mem.1 hmem)
    rw [member, hfind]
    exact if_neg hnot
  rw [hmember]
  exact Reader.takes_colon hvalue layout

/-- **A record that has been written as an object** is read back, if no field is missing. -/
theorem takes_read {a : α} {read : List String} {ms : List (String × Value)} {layout : Layout}
    {depth : Nat} (h : Reader.TakesMembers r.member layout (depth + 1) (r.blank, []) ms (a, read))
    (hmissing : r.missing? read = none) :
    r.read.Takes ((Value.object ms).write layout depth) a := by
  intro blanks rest hblanks hrest
  obtain ⟨cs, hcs, hbody⟩ := Reader.objectBody_written h rest
  have hobject : r.fromObject cs = .ok (a, rest) := by
    rw [fromObject, Reader.bind_of_ok hbody]
    simp only [hmissing]
    rfl
  rw [hcs, Record.read, Reader.bind_of_ok (Reader.peek_append hblanks rfl cs)]
  exact hobject

end Json.Record

/-- A text that a reader takes as a whole is decoded, whatever blanks stand behind it. -/
theorem Json.Reader.Takes.decode_append {α : Type} {r : Reader α} {cs : List Char} {a : α}
    (h : r.Takes cs a) {blanks : List Char} (hblanks : Blanks blanks) :
    Json.decode r (String.ofList (cs ++ blanks)) = .ok a := by
  have hends : Ends blanks := by
    rw [← List.append_nil blanks]
    exact Reader.ends_of_blanks hblanks ends_nil
  have hskip : skipBlanks blanks = [] := by
    rw [← List.append_nil blanks, skipBlanks, List.dropWhile_append_of_pos hblanks]
    rfl
  have hread := h [] blanks blanks_nil hends
  rw [List.nil_append] at hread
  rw [Json.decode, String.toList_ofList, decodeChars, hread]
  exact if_pos hskip

/-- A text that a reader takes as a whole is decoded. -/
theorem Json.Reader.Takes.decode {α : Type} {r : Reader α} {cs : List Char} {a : α}
    (h : r.Takes cs a) : Json.decode r (String.ofList cs) = .ok a := by
  have hread := h.decode_append blanks_nil
  rw [List.append_nil] at hread
  exact hread

/-! ### Blocks -/

namespace Block

/-- **A block that has been written** is taken by the reader of blocks, if it has an identifier. -/
theorem takes_read {b : Block} (h : b.id ≠ "") (layout : Layout) (depth : Nat) :
    record.read.Takes (b.toJson.write layout depth) b := by
  have hmembers : Reader.TakesMembers record.member layout (depth + 1) (record.blank, [])
      [("id", .text b.id), ("payload", .text (Hex.text b.payload)), ("table_name", .text b.table),
        ("operation", .text b.operation), ("timestamp", .integer b.timestamp.toInt),
        ("metadata", b.metadata.toJson)]
      (b, ["metadata", "timestamp", "operation", "table_name", "payload", "id"]) := by
    -- the block as far as it has been read
    let named : Block := { record.blank with id := b.id }
    let filled : Block := { named with payload := b.payload }
    let placed : Block := { filled with table := b.table }
    let meant : Block := { placed with operation := b.operation }
    let dated : Block := { meant with timestamp := b.timestamp }
    have htext := fun s => Reader.takes_text "a string" s layout (depth + 1)
    -- the fields come in the order of the record, each of them once
    refine .cons (b := (named, _)) (Record.takes_member rfl (by decide) ?_) ?_
    · exact (takes_readIdentifier h layout (depth + 1)).bind_pure rfl
    refine .cons (b := (filled, _)) (Record.takes_member rfl (by decide) ?_) ?_
    · exact (takes_readPayload b.payload layout (depth + 1)).bind_pure rfl
    refine .cons (b := (placed, _)) (Record.takes_member rfl (by decide) ?_) ?_
    · exact (htext b.table).bind_pure rfl
    refine .cons (b := (meant, _)) (Record.takes_member rfl (by decide) ?_) ?_
    · exact (htext b.operation).bind_pure rfl
    refine .cons (b := (dated, _)) (Record.takes_member rfl (by decide) ?_) ?_
    · exact (Reader.takes_signed b.timestamp layout (depth + 1)).bind_pure rfl
    refine .cons (b := (b, _)) (Record.takes_member rfl (by decide) ?_) (.nil _)
    exact (Metadata.takes_read b.metadata layout (depth + 1)).bind_pure rfl
  exact Record.takes_read hmembers rfl

/-- **Writing and reading a block.** -/
theorem decode_encode {b : Block} (h : b.id ≠ "") : decode b.encode = .ok b :=
  (takes_read h .compact 0).decode

end Block

end BlockLedger
