import BlockLedger.Command.Report
import BlockLedger.Proofs.Block.RoundTrip
import BlockLedger.Proofs.Json.Arrays
import BlockLedger.Proofs.Text.Digests

/-!
# Reading a bundle that has been written

A bundle is an object of objects and arrays, and each of its parts is taken by its own reader: the
source of a value (`Slot.takes_read`), an entry, a row, a proof (`InclusionProof.takes_read`), a leaf
and the bundle (`Bundle.takes_read`). A source is written in two forms, a word for a derived value and
an object with one member for the others (`Slot.takes_member`).

None of this depends on what the proof says, so proofs that no checker accepts are read back as well.
They only have to consist of numbers of 64 bits and of leaves that have identifiers
(`InclusionProof.Writable`). The layout does not matter, and neither does the line break behind a
bundle that is shown (`Bundle.text_shown`). What a checker answers is a function of what it reads, so
it answers the same on both sides of the text (`Bundle.transport`).
-/

namespace BlockLedger

open Json

/-! ### Sources of values -/

theorem takes_readDigest (d : Digest) (layout : Layout) (depth : Nat) :
    readDigest.Takes (d.toJson.write layout depth) d := by
  refine (Reader.takes_text Digest.expected d.hex layout depth).bind_pure ?_
  rw [Digest.parse_hex]

namespace SlotKind

/-- Each kind has a word of its own. -/
theorem find?_key (k : SlotKind) : all.find? (·.key = k.key) = some k := by
  cases k <;> decide

theorem takes_read (k : SlotKind) : read.Takes (quote k.key) k := by
  refine (Reader.takes_key k.key).bind_pure ?_
  rw [find?_key]

end SlotKind

namespace Slot

/-- **A source with a member**, if what belongs to its kind is taken. -/
theorem takes_member {k : SlotKind} {v : Value} {slot : Slot} {layout : Layout} {depth : Nat}
    (h : k.readContent.Takes (v.write layout (depth + 1)) slot) :
    read.Takes ((Value.object [(k.key, v)]).write layout depth) slot := by
  intro blanks rest hblanks hrest
  -- the text from the closing brace on, and from the colon on
  let closed := layout.break depth ++ '\x7d' :: rest
  let after := (layout.colon ++ v.write layout (depth + 1)) ++ closed
  have hclosed : Ends closed := Reader.ends_of_blanks (blanks_break layout depth)
    (ends_cons (by decide) rest)
  have hafter : Ends after := by
    cases layout with
    | compact => exact ends_cons (by decide) _
    | indented => exact ends_cons (by decide) _
  have htext : (Value.object [(k.key, v)]).write layout depth ++ rest =
      '\x7b' :: (layout.break (depth + 1) ++ (quote k.key ++ after)) := by
    rw [Value.write, writeMembers]
    simp only [List.append_assoc, List.cons_append, List.nil_append, after, closed]
  have hkind : SlotKind.read (layout.break (depth + 1) ++ (quote k.key ++ after)) =
      .ok (k, after) :=
    k.takes_read _ after (blanks_break layout (depth + 1)) hafter
  have hcontent : (Reader.colon >>= fun _ => k.readContent) after = .ok (slot, closed) :=
    Reader.takes_colon h layout [] closed blanks_nil hclosed
  have hbrace : Reader.peek closed = .ok (some '\x7d', '\x7d' :: rest) :=
    Reader.peek_append (blanks_break layout depth) rfl rest
  rw [htext, read, Reader.bind_of_ok (Reader.peek_append hblanks rfl _)]
  have hopen : Reader.advance ('\x7b' :: (layout.break (depth + 1) ++ (quote k.key ++ after))) =
      .ok ((), layout.break (depth + 1) ++ (quote k.key ++ after)) := rfl
  refine (Reader.bind_of_ok hopen).trans ?_
  refine (Reader.bind_of_ok hkind).trans ?_
  refine (Reader.bind_of_bind hcontent).trans ?_
  exact (Reader.bind_of_ok hbrace).trans rfl

/-- **The source of a value that has been written** is read back, unless it is a leaf without an
identifier. -/
theorem takes_read {slot : Slot} (h : slot ≠ .leaf "") (layout : Layout) (depth : Nat) :
    read.Takes (slot.toJson.write layout depth) slot := by
  cases slot with
  | leaf id =>
    have hid : id ≠ "" := fun heq => h (congrArg Slot.leaf heq)
    exact takes_member (k := .leaf)
      ((takes_readIdentifier hid layout (depth + 1)).bind_pure rfl)
  | derived =>
    intro blanks rest hblanks hrest
    -- the word is looked at from its quote on
    have hkind : SlotKind.read (quote SlotKind.derived.key ++ rest) = .ok (.derived, rest) :=
      SlotKind.takes_read .derived [] rest blanks_nil hrest
    have hpeek : Reader.peek (blanks ++ (quote SlotKind.derived.key ++ rest)) =
        .ok (some '"', quote SlotKind.derived.key ++ rest) :=
      Reader.peek_append hblanks rfl _
    rw [toJson, Value.write]
    exact (Reader.bind_of_ok hpeek).trans ((Reader.bind_of_ok hkind).trans rfl)
  | supplied d =>
    exact takes_member (k := .supplied)
      ((takes_readDigest d layout (depth + 1)).bind_pure rfl)

end Slot

/-! ### Proofs -/

theorem Entry.takes_read {e : Entry} (hposition : e.position < unsignedLimit)
    (hslot : e.slot ≠ .leaf "") (layout : Layout) (depth : Nat) :
    record.read.Takes (e.toJson.write layout depth) e := by
  have hmembers : Reader.TakesMembers record.member layout (depth + 1) (record.blank, [])
      [("position", .nat e.position), ("slot", e.slot.toJson)] (e, ["slot", "position"]) := by
    -- what has been read behind the first member
    let placed : Entry := { record.blank with position := e.position }
    refine .cons (b := (placed, _)) (Record.takes_member rfl (by decide) ?_) ?_
    · exact (Reader.takes_unsigned hposition layout (depth + 1)).bind_pure rfl
    refine .cons (b := (e, _)) (Record.takes_member rfl (by decide) ?_) (.nil _)
    exact (Slot.takes_read hslot layout (depth + 1)).bind_pure rfl
  exact Record.takes_read hmembers rfl

/-- **What a row is made of when it is written**: numbers of 64 bits, and leaves that have
identifiers. -/
structure Level.Writable (l : Level) : Prop where
  width : l.width < unsignedLimit
  position : ∀ e ∈ l.entries, e.position < unsignedLimit
  named : ∀ e ∈ l.entries, e.slot ≠ .leaf ""

instance : DecidablePred Level.Writable := fun l =>
  decidable_of_iff
    (l.width < unsignedLimit ∧ (∀ e ∈ l.entries, e.position < unsignedLimit) ∧
      ∀ e ∈ l.entries, e.slot ≠ .leaf "")
    ⟨fun h => ⟨h.1, h.2.1, h.2.2⟩, fun h => ⟨h.width, h.position, h.named⟩⟩

theorem Level.Writable.takes_read {l : Level} (h : l.Writable) (layout : Layout) (depth : Nat) :
    record.read.Takes (l.toJson.write layout depth) l := by
  have hmembers : Reader.TakesMembers record.member layout (depth + 1) (record.blank, [])
      [("width", .nat l.width), ("entries", .array (l.entries.map Entry.toJson))]
      (l, ["entries", "width"]) := by
    let wide : Level := { record.blank with width := l.width }
    have hentries : ∀ e ∈ l.entries,
        Entry.record.read.Takes (e.toJson.write layout (depth + 1 + 1)) e := fun e he =>
      Entry.takes_read (h.position e he) (h.named e he) layout (depth + 1 + 1)
    refine .cons (b := (wide, _)) (Record.takes_member rfl (by decide) ?_) ?_
    · exact (Reader.takes_unsigned h.width layout (depth + 1)).bind_pure rfl
    refine .cons (b := (l, _)) (Record.takes_member rfl (by decide) ?_) (.nil _)
    exact (Reader.takes_array hentries).bind_pure rfl
  exact Record.takes_read hmembers rfl

namespace InclusionProof

/-- **What a proof is made of when it is written.** -/
def Writable (p : InclusionProof) : Prop := ∀ l ∈ p.levels, l.Writable

instance : DecidablePred Writable := fun p =>
  inferInstanceAs (Decidable (∀ l ∈ p.levels, l.Writable))

/-- **A proof that has been written** is taken by the reader of proofs. -/
theorem Writable.takes_read {p : InclusionProof} (h : p.Writable) (layout : Layout) (depth : Nat) :
    record.read.Takes (p.toJson.write layout depth) p := by
  have hmembers : Reader.TakesMembers record.member layout (depth + 1) (record.blank, [])
      [("levels", .array (p.levels.map Level.toJson))] (p, ["levels"]) := by
    have hlevels : ∀ l ∈ p.levels,
        Level.record.read.Takes (l.toJson.write layout (depth + 1 + 1)) l := fun l hl =>
      (h l hl).takes_read layout (depth + 1 + 1)
    refine .cons (b := (p, _)) (Record.takes_member rfl (by decide) ?_) (.nil _)
    exact (Reader.takes_array hlevels).bind_pure rfl
  exact Record.takes_read hmembers rfl

end InclusionProof

/-! ### Bundles -/

namespace Bundle

theorem takes_readLeaf {l : HeldLeaf} (h : l.1 ≠ "") (layout : Layout) (depth : Nat) :
    leafRecord.read.Takes ((leafToJson l).write layout depth) l := by
  have hmembers : Reader.TakesMembers leafRecord.member layout (depth + 1) (leafRecord.blank, [])
      [("id", .text l.1), ("payload", .text (Hex.text l.2))] (l, ["payload", "id"]) := by
    refine .cons (b := ((l.1, []), _)) (Record.takes_member rfl (by decide) ?_) ?_
    · exact (takes_readIdentifier h layout (depth + 1)).bind_pure rfl
    refine .cons (b := (l, _)) (Record.takes_member rfl (by decide) ?_) (.nil _)
    exact (takes_readPayload l.2 layout (depth + 1)).bind_pure rfl
  exact Record.takes_read hmembers rfl

/-- **What a bundle is made of when it is written.** Payloads and hashes may be any. -/
structure Writable (b : Bundle) : Prop where
  named : ∀ l ∈ b.leaves, l.1 ≠ ""
  proof : b.proof.Writable

/-- **A bundle that has been written** is taken by the reader of bundles. -/
theorem Writable.takes_read {b : Bundle} (h : b.Writable) (layout : Layout) (depth : Nat) :
    record.read.Takes (b.toJson.write layout depth) b := by
  have hmembers : Reader.TakesMembers record.member layout (depth + 1) (record.blank, [])
      [("root_hash", b.root.toJson), ("leaves", .array (b.leaves.map leafToJson)),
        ("proof", b.proof.toJson)] (b, ["proof", "leaves", "root_hash"]) := by
    let rooted : Bundle := { record.blank with root := b.root }
    let filled : Bundle := { rooted with leaves := b.leaves }
    have hleaves : ∀ l ∈ b.leaves,
        leafRecord.read.Takes ((leafToJson l).write layout (depth + 1 + 1)) l := fun l hl =>
      takes_readLeaf (h.named l hl) layout (depth + 1 + 1)
    refine .cons (b := (rooted, _)) (Record.takes_member rfl (by decide) ?_) ?_
    · exact (takes_readDigest b.root layout (depth + 1)).bind_pure rfl
    refine .cons (b := (filled, _)) (Record.takes_member rfl (by decide) ?_) ?_
    · exact (Reader.takes_array hleaves).bind_pure rfl
    refine .cons (b := (b, _)) (Record.takes_member rfl (by decide) ?_) (.nil _)
    exact (h.proof.takes_read layout (depth + 1)).bind_pure rfl
  exact Record.takes_read hmembers rfl

/-! ### Texts -/

/-- A bundle that is shown has its indented text on the last line of the answer. -/
theorem text_shown (b : Bundle) (format : Format) :
    (Ending.reported (.shownBundle b)).text format =
      String.ofList (b.toJson.write .indented 0 ++ ['\n']) := by
  have hparts : (Ending.reported (.shownBundle b)).parts format = [b.toJson.indented] := by
    cases format <;> rfl
  apply String.toList_injective
  rw [Ending.text, hparts, Value.indented]
  simp

/-- **The texts in which a bundle is passed on**: one line, the file that it is written to, and what
is shown instead. -/
def texts (b : Bundle) : List String :=
  [b.encode, b.toJson.indented, (Ending.reported (.shownBundle b)).text .plain,
    (Ending.reported (.shownBundle b)).text .json]

theorem Writable.decode_of_mem_texts {b : Bundle} (h : b.Writable) {s : String} (hs : s ∈ b.texts) :
    decode s = .ok b := by
  have hshown : ∀ format, decode ((Ending.reported (.shownBundle b)).text format) = .ok b := by
    intro format
    -- the line break is all that stands behind the bundle
    have hbreak : Blanks ['\n'] := by
      intro c hc
      rw [List.mem_singleton.1 hc]
      rfl
    rw [text_shown]
    exact (h.takes_read .indented 0).decode_append hbreak
  simp only [texts, List.mem_cons, List.not_mem_nil, or_false] at hs
  rcases hs with rfl | rfl | rfl | rfl
  · exact (h.takes_read .compact 0).decode
  · exact (h.takes_read .indented 0).decode
  · exact hshown .plain
  · exact hshown .json

theorem indented_ne_empty (b : Bundle) : b.toJson.indented ≠ "" := by
  intro hempty
  have hchars := congrArg String.toList hempty
  rw [Json.Value.indented, String.toList_ofList, Bundle.toJson, Json.Value.write] at hchars
  cases hchars

/-- **Proofs and bundles survive transport.** A proof that is made of numbers of 64 bits and of leaves
that have identifiers is read back from its text, whatever it says, and so is a bundle over it, with
any hashes and payloads, from each of the texts in which it is passed on. Therefore the answer for the
leaves and root at hand is the same on both sides. -/
theorem transport {p : InclusionProof} (hp : p.Writable) :
    (InclusionProof.decode p.encode = .ok p ∧
      ∀ root held, (InclusionProof.decode p.encode).map (·.verify root held) =
        .ok (p.verify root held)) ∧
    ∀ b : Bundle, b.proof = p → (∀ l ∈ b.leaves, l.1 ≠ "") → ∀ s ∈ b.texts,
      decode s = .ok b ∧ (decode s).map verify = .ok b.verify ∧
        ∀ root, (decode s).map (·.verifyAgainst root) = .ok (b.verifyAgainst root) := by
  have hproof : InclusionProof.decode p.encode = .ok p := (hp.takes_read .compact 0).decode
  refine ⟨⟨hproof, fun root held => ?_⟩, ?_⟩
  · rw [hproof]
    rfl
  · intro b hb hnamed s hs
    have hwritable : b.Writable := ⟨hnamed, hb ▸ hp⟩
    have hdecode : decode s = .ok b := hwritable.decode_of_mem_texts hs
    refine ⟨hdecode, ?_, fun root => ?_⟩
    · rw [hdecode]
      rfl
    · rw [hdecode]
      rfl

/-- A bundle with a source of each kind, a width that no row can have, a position out of range and
characters that are escaped in its text. -/
def misshapen : Bundle where
  root := .zero
  leaves := [("a \"b\"\n", [0x00, 0xff]), ("c", [])]
  proof := ⟨[
    ⟨0, [⟨1, .leaf "a \"b\"\n"⟩, ⟨0, .derived⟩]⟩,
    ⟨18446744073709551615, [⟨18446744073709551615, .supplied .zero⟩]⟩,
    ⟨7, []⟩]⟩

theorem transport_misshapen :
    misshapen.proof.Writable ∧ (∀ l ∈ misshapen.leaves, l.1 ≠ "") ∧
      InclusionProof.decode misshapen.proof.encode = .ok misshapen.proof ∧
      ∀ s ∈ misshapen.texts, decode s = .ok misshapen := by
  have hproof : misshapen.proof.Writable := by decide
  have hnamed : ∀ l ∈ misshapen.leaves, l.1 ≠ "" := by decide
  obtain ⟨⟨hdecode, -⟩, hbundle⟩ := transport hproof
  exact ⟨hproof, hnamed, hdecode, fun s hs => (hbundle misshapen rfl hnamed s hs).1⟩

end Bundle

end BlockLedger
