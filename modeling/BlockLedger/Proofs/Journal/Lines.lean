import BlockLedger.Journal
import BlockLedger.Proofs.Journal.Records
import Mathlib.Data.List.ReduceOption

/-!
# The lines of a file

A byte string is cut into lines in exactly one way (`existsUnique_lined`): each line but the last is
ended by a line feed or by carriage return and line feed, and what stands behind the last end is a line
if it is not empty. The reader finds just these lines (`linesOf_bytes`).

A line holds a block or is blank (`LineHolds`), or it is faulty (`Faulty`), and never both. As long as
the lines hold something, their blocks are collected in order (`readLines_of_holds`); the first faulty
one ends the reading, and what stands behind it makes no difference (`readLines_of_faulty`). Both run
along the lines, with the number of the next line counted up for each of them, blank or not.
-/

namespace BlockLedger

/-! ### Cutting into lines -/

/-- **How a line ends.** -/
inductive LineEnd where
  | feed
  | returnFeed
  deriving DecidableEq, Repr

/-- The bytes at the end of a line. -/
def LineEnd.bytes : LineEnd → Bytes
  | .feed => [lineFeed]
  | .returnFeed => [carriageReturn, lineFeed]

/-- **A line with its end.** A carriage return before the line feed belongs to the end. -/
structure EndedLine where
  content : Bytes
  ending : LineEnd
  single : lineFeed ∉ content
  whole : ending = .feed → content.getLast? ≠ some carriageReturn

/-- **A byte string in lines**: those that are ended, and what stands behind the last end. -/
structure Lined where
  ended : List EndedLine
  last : Bytes
  single : lineFeed ∉ last

namespace EndedLine

/-- The bytes of a line up to its line feed. -/
def body (l : EndedLine) : Bytes :=
  match l.ending with
  | .feed => l.content
  | .returnFeed => l.content ++ [carriageReturn]

theorem bytes_eq (l : EndedLine) : l.content ++ l.ending.bytes = l.body ++ [lineFeed] := by
  obtain ⟨content, ending, -, -⟩ := l
  cases ending with
  | feed => rfl
  | returnFeed => exact (List.append_assoc content [carriageReturn] [lineFeed]).symm

theorem lineFeed_notMem_body (l : EndedLine) : lineFeed ∉ l.body := by
  obtain ⟨content, ending, hsingle, -⟩ := l
  cases ending with
  | feed => exact hsingle
  | returnFeed =>
    intro hmem
    rcases List.mem_append.1 hmem with hmem | hmem
    · exact hsingle hmem
    · exact absurd (List.mem_singleton.1 hmem) (by decide)

/-- The reader takes away the carriage return that belongs to the end, and no other. -/
theorem withoutReturn_body (l : EndedLine) : withoutReturn l.body = l.content := by
  obtain ⟨content, ending, -, hwhole⟩ := l
  cases ending with
  | feed => exact if_neg (hwhole rfl)
  | returnFeed =>
    show withoutReturn (content ++ [carriageReturn]) = content
    rw [withoutReturn, List.getLast?_concat, if_pos rfl, List.dropLast_concat]

/-- A line is known by its bytes. -/
theorem body_inj {l m : EndedLine} (h : l.body = m.body) : l = m := by
  have hcontent : l.content = m.content := by rw [← withoutReturn_body, h, withoutReturn_body]
  obtain ⟨content, ending, _, hwhole⟩ := l
  obtain ⟨content', ending', _, hwhole'⟩ := m
  obtain rfl : content = content' := hcontent
  -- with other ends the bodies have different lengths
  cases ending with
  | feed =>
    cases ending' with
    | feed => rfl
    | returnFeed => simp [body] at h
  | returnFeed =>
    cases ending' with
    | feed => simp [body] at h
    | returnFeed => rfl

/-- Every byte string without a line feed is the body of some line. -/
theorem exists_body_eq {bytes : Bytes} (h : lineFeed ∉ bytes) : ∃ l : EndedLine, l.body = bytes := by
  by_cases hreturn : bytes.getLast? = some carriageReturn
  · obtain ⟨content, rfl⟩ := List.getLast?_eq_some_iff.1 hreturn
    have hsingle : lineFeed ∉ content := fun hmem => h (List.mem_append_left _ hmem)
    exact ⟨⟨content, .returnFeed, hsingle, nofun⟩, rfl⟩
  · exact ⟨⟨bytes, .feed, h, fun _ => hreturn⟩, rfl⟩

end EndedLine

namespace Lined

/-- The bytes that are in these lines. -/
def bytes (f : Lined) : Bytes :=
  f.ended.flatMap (fun l => l.content ++ l.ending.bytes) ++ f.last

/-- The contents of all lines. What stands behind the last end is no line if it is empty. -/
def lines (f : Lined) : List Bytes :=
  f.ended.map (·.content) ++ if f.last = [] then [] else [f.last]

/-- One more line in front. -/
def cons (l : EndedLine) (f : Lined) : Lined := { f with ended := l :: f.ended }

theorem bytes_cons (l : EndedLine) (f : Lined) :
    (f.cons l).bytes = l.body ++ lineFeed :: f.bytes := by
  unfold bytes cons
  rw [List.flatMap_cons, l.bytes_eq, List.append_assoc, List.append_assoc, List.singleton_append]

theorem lines_cons (l : EndedLine) (f : Lined) : (f.cons l).lines = l.content :: f.lines := rfl

/-- An induction along the ended lines. -/
theorem induction {P : Lined → Prop} (hlast : ∀ last h, P ⟨[], last, h⟩)
    (hcons : ∀ l f, P f → P (f.cons l)) (f : Lined) : P f := by
  obtain ⟨ended, last, single⟩ := f
  induction ended with
  | nil => exact hlast last single
  | cons l ended ih => exact hcons l ⟨ended, last, single⟩ ih

/-- **The reader finds these lines.** -/
theorem linesOf_bytes (f : Lined) : linesOf f.bytes = f.lines := by
  induction f using Lined.induction with
  | hlast last h =>
    show linesOf last = if last = [] then [] else [last]
    unfold linesOf
    rw [pieces_of_notMem h]
    by_cases hempty : last = []
    · simp [hempty]
    · simp [hempty]
  | hcons l f ih =>
    rw [bytes_cons, linesOf_append_feed, pieces_of_notMem l.lineFeed_notMem_body, List.map_singleton,
      l.withoutReturn_body, ih, lines_cons, List.singleton_append]

/-- The pieces between the line feeds are the bodies of the lines. -/
theorem pieces_bytes (f : Lined) :
    pieces lineFeed f.bytes = f.ended.map EndedLine.body ++ [f.last] := by
  induction f using Lined.induction with
  | hlast last h => exact pieces_of_notMem h
  | hcons l f ih => rw [bytes_cons, pieces_append, pieces_of_notMem l.lineFeed_notMem_body, ih]; rfl

theorem bytes_inj {f g : Lined} (h : f.bytes = g.bytes) : f = g := by
  have hpieces := f.pieces_bytes
  rw [h, g.pieces_bytes] at hpieces
  obtain ⟨hbodies, hlast⟩ := List.append_inj' hpieces rfl
  obtain ⟨ended, last, _⟩ := f
  obtain ⟨ended', last', _⟩ := g
  obtain rfl : ended' = ended := List.map_injective_iff.2 (fun _ _ => EndedLine.body_inj) hbodies
  obtain rfl : last' = last := List.singleton_inj.1 hlast
  rfl

theorem exists_bytes_eq (bytes : Bytes) : ∃ f : Lined, f.bytes = bytes := by
  -- the induction is on the length: the first line is cut off
  induction hn : bytes.length using Nat.strongRecOn generalizing bytes with
  | ind n ih =>
    by_cases hfeed : lineFeed ∈ bytes
    · obtain ⟨front, behind, rfl, hfront⟩ := List.eq_append_cons_of_mem hfeed
      obtain ⟨l, rfl⟩ := EndedLine.exists_body_eq hfront
      have hlt : behind.length < n := by
        rw [← hn, List.length_append, List.length_cons]
        omega
      obtain ⟨f, rfl⟩ := ih behind.length hlt behind rfl
      exact ⟨f.cons l, bytes_cons l f⟩
    · exact ⟨⟨[], bytes, hfeed⟩, rfl⟩

end Lined

/-- **A byte string is cut into lines** in exactly one way. -/
theorem existsUnique_lined (bytes : Bytes) : ∃! f : Lined, f.bytes = bytes := by
  obtain ⟨f, hf⟩ := Lined.exists_bytes_eq bytes
  exact ⟨f, hf, fun g hg => Lined.bytes_inj (hg.trans hf.symm)⟩

/-! ### What lines hold -/

/-- **What a line holds**: nothing if it is blank, or else the block that is decoded from it. -/
inductive LineHolds : Bytes → Option Block → Prop
  | blank {s : String} (h : Text.isBlank s = true) : LineHolds (Bytes.ofText s) none
  | block {s : String} {b : Block} (hblank : Text.isBlank s = false) (h : Block.decode s = .ok b) :
    LineHolds (Bytes.ofText s) (some b)

/-- **A faulty line** is not UTF-8, or is neither blank nor a block. -/
def Faulty (line : Bytes) : Prop :=
  Bytes.text? line = none ∨
    ∃ s, Bytes.text? line = some s ∧ Text.isBlank s = false ∧ ∀ b, Block.decode s ≠ .ok b

/-- The line of a block that has been written holds that block. -/
theorem lineHolds_encode {b : Block} (h : b.id ≠ "") :
    LineHolds (Bytes.ofText b.encode) (some b) :=
  .block b.isBlank_encode (Block.decode_encode h)

/-- A line that holds anything is not faulty. -/
theorem LineHolds.not_faulty {line : Bytes} {entry : Option Block} (h : LineHolds line entry) :
    ¬ Faulty line := by
  unfold Faulty
  cases h with
  | blank hblank =>
    rw [Bytes.text?_ofText]
    rintro (hnone | ⟨s', hs, hblank', -⟩)
    · cases hnone
    · cases hs
      rw [hblank] at hblank'
      cases hblank'
  | block hblank hdecode =>
    rw [Bytes.text?_ofText]
    rintro (hnone | ⟨s', hs, -, hnot⟩)
    · cases hnone
    · cases hs
      exact hnot _ hdecode

/-- A line that is not faulty holds something. -/
theorem exists_lineHolds {line : Bytes} (h : ¬ Faulty line) : ∃ entry, LineHolds line entry := by
  unfold Faulty at h
  rw [not_or] at h
  obtain ⟨htext, hblock⟩ := h
  obtain ⟨s, hs⟩ := Option.ne_none_iff_exists'.1 htext
  rw [← Bytes.ofText_of_text? hs]
  cases hblank : Text.isBlank s with
  | true => exact ⟨none, .blank hblank⟩
  | false =>
    cases hdecode : Block.decode s with
    | ok b => exact ⟨some b, .block hblank hdecode⟩
    | error cause =>
      refine absurd ⟨s, hs, hblank, fun b hb => ?_⟩ hblock
      rw [hdecode] at hb
      cases hb

/-- Lines that are not faulty hold something each. -/
theorem exists_forall₂_lineHolds {lines : List Bytes} (h : ∀ line ∈ lines, ¬ Faulty line) :
    ∃ entries, List.Forall₂ LineHolds lines entries := by
  induction lines with
  | nil => exact ⟨[], .nil⟩
  | cons line lines ih =>
    obtain ⟨hline, hlines⟩ := List.forall_mem_cons.1 h
    obtain ⟨entry, hentry⟩ := exists_lineHolds hline
    obtain ⟨entries, hentries⟩ := ih hlines
    exact ⟨entry :: entries, .cons hentry hentries⟩

/-- Of lines that are not all without fault, one is the first that is faulty. -/
theorem exists_first_faulty {lines : List Bytes} (h : ∃ line ∈ lines, Faulty line) :
    ∃ before line behind, lines = before ++ line :: behind ∧
      (∀ earlier ∈ before, ¬ Faulty earlier) ∧ Faulty line := by
  classical
  obtain ⟨line, hmem, hfaulty⟩ := h
  obtain ⟨first, hfirst⟩ : ∃ first, lines.find? (fun l => decide (Faulty l)) = some first := by
    rw [← Option.isSome_iff_exists, List.find?_isSome]
    exact ⟨line, hmem, decide_eq_true hfaulty⟩
  obtain ⟨hfirst, before, behind, hlines, hbefore⟩ := List.find?_eq_some_iff_append.1 hfirst
  refine ⟨before, first, behind, hlines, fun earlier hearlier => ?_, of_decide_eq_true hfirst⟩
  simpa using hbefore earlier hearlier

/-- Only one line is the first that is faulty. -/
theorem first_faulty_unique {before before' behind behind' : List Bytes} {line line' : Bytes}
    (h : before ++ line :: behind = before' ++ line' :: behind')
    (hbefore : ∀ earlier ∈ before, ¬ Faulty earlier) (hline : Faulty line)
    (hbefore' : ∀ earlier ∈ before', ¬ Faulty earlier) (hline' : Faulty line') :
    before = before' ∧ line = line' := by
  -- a line between both would be one in front of a first one, and faulty
  rcases List.append_eq_append_iff.1 h with ⟨between, rfl, hbetween⟩ | ⟨between, rfl, hbetween⟩
  · cases between with
    | nil => exact ⟨(List.append_nil before).symm, (List.cons.inj hbetween).1⟩
    | cons first between =>
      obtain rfl := (List.cons.inj hbetween).1
      exact absurd hline (hbefore' line (List.mem_append_right before List.mem_cons_self))
  · cases between with
    | nil => exact ⟨List.append_nil before', (List.cons.inj hbetween).1.symm⟩
    | cons first between =>
      obtain rfl := (List.cons.inj hbetween).1
      exact absurd hline' (hbefore line' (List.mem_append_right before' List.mem_cons_self))

/-! ### Reading lines -/

/-- **Blocks are collected** in the order of their lines. -/
theorem readLines_of_holds {lines : List Bytes} {entries : List (Option Block)}
    (h : List.Forall₂ LineHolds lines entries) (number : Nat) :
    readLines number lines = .ok entries.reduceOption := by
  induction h generalizing number with
  | nil => rfl
  | cons hline _ ih =>
    unfold readLines
    cases hline with
    | blank hblank =>
      simp only [Bytes.text?_ofText, hblank, if_true, ih, List.reduceOption_cons_of_none]
    | block hblank hdecode =>
      simp only [Bytes.text?_ofText, hblank, Bool.false_eq_true, if_false, hdecode, ih,
        List.reduceOption_cons_of_some]

/-- **A fault ends the reading.** The lines in front of it hold something, and are counted. -/
theorem readLines_append_of_holds {before : List Bytes} {entries : List (Option Block)}
    (h : List.Forall₂ LineHolds before entries) {number : Nat} {lines : List Bytes} {f : RecordFault}
    (hfault : readLines (number + before.length) lines = .error f) :
    readLines number (before ++ lines) = .error f := by
  induction h generalizing number with
  | nil => exact hfault
  | @cons line entry before _ hline _ ih =>
    have hcount : number + (line :: before).length = number + 1 + before.length := by
      rw [List.length_cons]
      omega
    rw [hcount] at hfault
    rw [List.cons_append, readLines]
    cases hline with
    | blank hblank => simp only [Bytes.text?_ofText, hblank, if_true, ih hfault]
    | block hblank hdecode =>
      simp only [Bytes.text?_ofText, hblank, Bool.false_eq_true, if_false, hdecode, ih hfault]

/-- What is reported of a faulty line, whatever stands behind it. -/
theorem readLines_of_faulty {line : Bytes} (h : Faulty line) (number : Nat) :
    (Bytes.text? line = none ∧ ∀ behind, readLines number (line :: behind) = .error .notText) ∨
      ∃ s cause, Bytes.text? line = some s ∧ Block.decode s = .error cause ∧
        ∀ behind, readLines number (line :: behind) = .error (.notBlock number cause) := by
  rcases h with hnone | ⟨s, hs, hblank, hnot⟩
  · exact .inl ⟨hnone, fun behind => by simp only [readLines, hnone]⟩
  · cases hdecode : Block.decode s with
    | ok b => exact absurd hdecode (hnot b)
    | error cause =>
      refine .inr ⟨s, cause, hs, hdecode, fun behind => ?_⟩
      simp only [readLines, hs, hblank, Bool.false_eq_true, if_false, hdecode]

/-! ### Reading a file -/

theorem readRecords_bytes (f : Lined) : readRecords f.bytes = readLines 1 f.lines := by
  rw [readRecords, f.linesOf_bytes]

/-- **Reading the blocks of a file.** The file is cut into lines in exactly one way, each but the last
ended by a line feed or by carriage return and line feed.

* If each line holds a block or is blank, the blocks are read in order. A block that has been written
  is held by its line if it has an identifier.
* If a line is faulty, the first such line decides, and nothing is read: if it is not UTF-8 that is what
  is reported, and otherwise its number, blank lines counted, with the cause for which it is no block.
  The lines behind it may be any. -/
theorem readBlocks_lines {fs : FileSystem} {path : String} {bytes : Bytes}
    (h : fs.read path = .ok bytes) :
    ∃ f : Lined, (∀ g : Lined, g.bytes = bytes ↔ g = f) ∧
      (∀ b : Block, b.id ≠ "" → LineHolds (Bytes.ofText b.encode) (some b)) ∧
      (∀ entries, List.Forall₂ LineHolds f.lines entries →
        readBlocks fs path = .ok entries.reduceOption) ∧
      ((∃ line ∈ f.lines, Faulty line) → ∃ before line behind,
        f.lines = before ++ line :: behind ∧ (∀ earlier ∈ before, ¬ Faulty earlier) ∧ Faulty line ∧
          ((Bytes.text? line = none ∧ readBlocks fs path = .error (.files path .notText)) ∨
            ∃ s cause, Bytes.text? line = some s ∧ Block.decode s = .error cause ∧
              readBlocks fs path = .error (.notBlock path (before.length + 1) cause))) := by
  obtain ⟨f, rfl, hunique⟩ := existsUnique_lined bytes
  refine ⟨f, fun g => ⟨hunique g, fun hg => by rw [hg]⟩, fun b => lineHolds_encode,
    fun entries hentries => ?_, fun hfaulty => ?_⟩
  · simp only [readBlocks, h, readRecords_bytes, readLines_of_holds hentries]
  · obtain ⟨before, line, behind, hlines, hbefore, hline⟩ := exists_first_faulty hfaulty
    refine ⟨before, line, behind, hlines, hbefore, hline, ?_⟩
    -- the lines in front of it are read, and then its own fault ends the reading
    obtain ⟨entries, hentries⟩ := exists_forall₂_lineHolds hbefore
    rcases readLines_of_faulty hline (1 + before.length) with
      ⟨hnone, hfault⟩ | ⟨s, cause, hs, hdecode, hfault⟩
    · refine .inl ⟨hnone, ?_⟩
      simp only [readBlocks, h, readRecords_bytes, hlines,
        readLines_append_of_holds hentries (hfault behind)]
    · refine .inr ⟨s, cause, hs, hdecode, ?_⟩
      simp only [readBlocks, h, readRecords_bytes, hlines,
        readLines_append_of_holds hentries (hfault behind), Nat.add_comm]

/-- Two blocks with a blank line of two-byte and three-byte spaces between them, the second one
unterminated. In the other file the third line is an object without fields, and the fourth one is not
UTF-8. -/
theorem readBlocks_lines_third :
    let a : Block := { id := "a", payload := [0] }
    let b : Block := { id := "b", payload := [] }
    let written : EndedLine := ⟨Bytes.ofText a.encode, .returnFeed, a.lineFeed_notMem_encode, nofun⟩
    let spaces : EndedLine := ⟨Bytes.ofText "\u00a0\t\u2003", .feed, by decide, fun _ => by decide⟩
    let object : EndedLine := ⟨Bytes.ofText "{}", .feed, by decide, fun _ => by decide⟩
    let good : Lined := ⟨[written, spaces], Bytes.ofText b.encode, b.lineFeed_notMem_encode⟩
    let bad : Lined := ⟨[written, spaces, object], [0xFF], by decide⟩
    let files : FileSystem := { FileSystem.fresh with
      items := [(["work"], .directory), (["work", "good"], .file 0), (["work", "bad"], .file 1)]
      contents := [good.bytes, bad.bytes] }
    files.read "good" = .ok good.bytes ∧ readBlocks files "good" = .ok [a, b] ∧
      files.read "bad" = .ok bad.bytes ∧
      readBlocks files "bad" = .error (.notBlock "bad" 3 (.content (.missingField "id"))) := by
  intro a b written spaces object good bad files
  have hgood : files.read "good" = .ok good.bytes := by rfl
  have hbad : files.read "bad" = .ok bad.bytes := by rfl
  have hid : a.id ≠ "" := by decide
  have hwritten : LineHolds written.content (some a) := by
    dsimp only [written]
    exact lineHolds_encode hid
  have hspaces : LineHolds spaces.content none := .blank (by decide)
  have hdecode : Block.decode "{}" = .error (.content (.missingField "id")) := by decide +kernel
  have hobject : Faulty object.content := by
    refine .inr ⟨"{}", Bytes.text?_ofText _, by decide, fun b hb => ?_⟩
    rw [hdecode] at hb
    cases hb
  have hlast : Bytes.ofText b.encode ≠ [] := by
    refine Bytes.ofText_ne_nil fun hempty => ?_
    have hblank := b.isBlank_encode
    rw [hempty] at hblank
    cases hblank
  have hgoodLines : good.lines = [written.content, spaces.content, Bytes.ofText b.encode] := by
    rw [Lined.lines, if_neg hlast]
    simp only [good, List.map_cons, List.map_nil, List.cons_append, List.nil_append]
  have hbadLines : bad.lines = [written.content, spaces.content, object.content, [0xFF]] := by
    rw [Lined.lines, if_neg (List.cons_ne_nil _ _)]
    simp only [bad, List.map_cons, List.map_nil, List.cons_append, List.nil_append]
  obtain ⟨f, hf, hencode, hblocks, -⟩ := readBlocks_lines hgood
  obtain rfl : good = f := (hf good).1 rfl
  have hread : readBlocks files "good" = .ok [some a, none, some b].reduceOption := by
    refine hblocks _ ?_
    rw [hgoodLines]
    exact .cons hwritten (.cons hspaces (.cons (hencode b (by decide)) .nil))
  obtain ⟨f, hf, -, -, hfault⟩ := readBlocks_lines hbad
  obtain rfl : bad = f := (hf bad).1 rfl
  rw [hbadLines] at hfault
  obtain ⟨before, line, behind, hlines, hbefore, hline, hresult⟩ := hfault ⟨_, by simp, hobject⟩
  -- the object is the first line that is faulty: those in front of it are not, and it is
  have hfront : ∀ earlier ∈ [written.content, spaces.content], ¬ Faulty earlier :=
    List.forall_mem_cons.2 ⟨hwritten.not_faulty, List.forall_mem_singleton.2 hspaces.not_faulty⟩
  have hcut : [written.content, spaces.content] ++ object.content :: [[0xFF]] =
      before ++ line :: behind := hlines
  obtain ⟨rfl, rfl⟩ := first_faulty_unique hcut hfront hobject hbefore hline
  refine ⟨hgood, hread, hbad, ?_⟩
  rcases hresult with ⟨hnone, -⟩ | ⟨s, cause, hs, hcause, hresult⟩
  · rw [Bytes.text?_ofText] at hnone
    cases hnone
  · rw [Bytes.text?_ofText] at hs
    cases hs
    rw [hdecode] at hcause
    cases hcause
    exact hresult

end BlockLedger
