import BlockLedger.Text.Columns.Character
import BlockLedger.Text.Emoji

/-!
# Columns a text takes on a terminal

A line takes the columns of its characters, less what is saved where neighbours are shown as one:
an emoji and the selectors, skin tones and further emoji joined to it, and letters that a script
writes as one sign. Whether a character joins depends on what stands behind it, so a line is read
from its end. `Follower` is what the characters read so far offer to the one in front of them.

Some characters lose their column if the one in front of them joins. They are not counted at once
but kept back (`Follower.pending`), so nothing is ever taken off again. Blanks behind a line add
their number to it (`columns_append_blanks`).
-/

namespace BlockLedger.Text

/-! ### What may stand behind a character -/

/-- How a variation selector wants the character in front of it to be shown. -/
inductive Look where
  | picture
  | sign
  | full
  deriving DecidableEq, Repr

/-- Letters that another one may run into, if only invisible characters stand between them. -/
inductive Letter where
  /-- Hebrew lamed, which joins with alef. -/
  | lamed
  /-- Buginese ya, which joins with the vowel sign i on the letter a. -/
  | ya
  /-- The vowel sign i joined with ya. -/
  | vowelYa
  /-- A consonant of Tifinagh, which joins with another one. -/
  | tifinagh
  /-- A consonant of Tifinagh behind the sign that joins consonants. -/
  | tifinaghJoiner
  /-- One of two tone letters of Lisu, which combine with others. -/
  | lisuTone
  /-- The letter i of Old Turkic, which joins with ec. -/
  | orkhonI
  /-- A consonant of Khmer, which is written below another one behind the sign for that. -/
  | khmer
  deriving DecidableEq, Repr

/-- **What stands behind a character**, as far as it may join with it. -/
inductive Follower where
  | nothing
  | emoji
  | tone
  /-- A run of the letters that flags are written with, perhaps joined to an emoji behind it. -/
  | indicators (number : Nat) (joined : Bool)
  /-- A joiner and an emoji. -/
  | joinedEmoji
  /-- A keycap sign, a joiner and an emoji. -/
  | joinedKeycap
  /-- Tags for the name of a region, a joiner and an emoji: how many letters have been read, or, if
  there are digits in front of these, how many digits. -/
  | joinedTags (letters digits : Nat)
  | letter (l : Letter) (joined : Bool)
  /-- Arabic alef, which joins with lam. -/
  | alef
  /-- The vowel sign e of Kirat Rai, which joins with other vowel signs. -/
  | vowelE
  /-- The vowel sign ai of Kirat Rai. -/
  | vowelAi
  deriving DecidableEq, Repr

/-- The columns that are not counted yet. -/
def Follower.pending : Follower → Nat
  | .letter .khmer _ => 1
  | .letter .tifinaghJoiner _ => 1
  | .indicators n true => n % 2
  | _ => 0

/-! ### Letters -/

/-- The letters of the kind of alef. -/
def alefs : CodePoints := .mk [
    (0x622, 0x623), (0x625, 0x625), (0x627, 0x627), (0x671, 0x673), (0x675, 0x675),
    (0x773, 0x774), (0x870, 0x882)]

/-- The letters of the kind of lam. -/
def lams : CodePoints := .mk [
    (0x644, 0x644), (0x6B5, 0x6B8), (0x76A, 0x76A), (0x8A6, 0x8A6), (0x8C7, 0x8C7)]

/-- Code points without a column that keep lam and alef apart. -/
def dividing : CodePoints := .mk [
    (0x605, 0x605), (0x890, 0x891), (0x8E2, 0x8E2), (0x9BE, 0x9BE), (0x9D7, 0x9D7), (0xB3E, 0xB3E),
    (0xB57, 0xB57), (0xBBE, 0xBBE), (0xBD7, 0xBD7), (0xCC0, 0xCC0), (0xCC2, 0xCC2), (0xCC7, 0xCC8),
    (0xCCA, 0xCCB), (0xCD5, 0xCD6), (0xD3E, 0xD3E), (0xD4E, 0xD4E), (0xD57, 0xD57), (0xDCF, 0xDCF),
    (0xDDF, 0xDDF), (0x1160, 0x11FF), (0x1715, 0x1715), (0x1734, 0x1734), (0x180E, 0x180E),
    (0x1B35, 0x1B35), (0x1B3B, 0x1B3B), (0x1B3D, 0x1B3D), (0x1B43, 0x1B44), (0x1BAA, 0x1BAA),
    (0x1BF2, 0x1BF3), (0x200C, 0x200D), (0x2065, 0x2069), (0x302E, 0x302F), (0x3164, 0x3164),
    (0xA8FA, 0xA8FA), (0xA953, 0xA953), (0xA9C0, 0xA9C0), (0xD7B0, 0xD7C6), (0xD7CB, 0xD7FB),
    (0xFF9E, 0xFFA0), (0xFFF0, 0xFFF8), (0x111C0, 0x111C0), (0x111C2, 0x111C3), (0x11235, 0x11235),
    (0x1133E, 0x1133E), (0x1134D, 0x1134D), (0x11357, 0x11357), (0x113B8, 0x113B8),
    (0x113C2, 0x113C2), (0x113C5, 0x113C5), (0x113C7, 0x113C9), (0x113CF, 0x113CF),
    (0x113D1, 0x113D1), (0x114B0, 0x114B0), (0x114BD, 0x114BD), (0x115AF, 0x115AF),
    (0x116B6, 0x116B6), (0x11930, 0x11930), (0x1193D, 0x1193D), (0x1193F, 0x1193F),
    (0x11941, 0x11941), (0x11A84, 0x11A89), (0x11D46, 0x11D46), (0x11F02, 0x11F02),
    (0x11F41, 0x11F41), (0x16FF0, 0x16FF1), (0x1D165, 0x1D166), (0x1D16D, 0x1D172),
    (0xE0000, 0xE0000), (0xE0002, 0xE001F), (0xE0080, 0xE00FF), (0xE01F0, 0xE0FFF)]

/-- The letters of Khmer that are written below others. -/
def khmerLetters : CodePoints := .mk [
    (0x1780, 0x1782), (0x1784, 0x1787), (0x1789, 0x178C), (0x178E, 0x1793), (0x1795, 0x1798),
    (0x179B, 0x179D), (0x17A0, 0x17A0), (0x17A2, 0x17A2), (0x17A7, 0x17A7), (0x17AB, 0x17AC),
    (0x17AF, 0x17AF)]

/-- Whether a letter of Tifinagh that joins. -/
def isTifinagh (n : Nat) : Bool := (0x2D31 ≤ n && n ≤ 0x2D65) || n = 0x2D6F

/-- Whether a character may stand between lam and alef. -/
def isBetweenArabic (c : Char) : Bool := columnsOf c = 0 && !dividing.contains c

/-- Ignorable marks, which may stand between the letters of other scripts that join. -/
def ignorableMarks : CodePoints := .mk [
    (0x34F, 0x34F), (0x17B4, 0x17B5), (0x180B, 0x180D), (0x180F, 0x180F), (0xFE00, 0xFE0F),
    (0xE0100, 0xE01EF)]

/-- The zero-width joiner. -/
def joiner : Char := '\u200d'

/-- What the letter `n` in front of another one makes of it, if they join: the columns to be
counted now, and what the letter before them meets. -/
def Letter.join (l : Letter) (joined : Bool) (n : Nat) : Option (Nat × Follower) :=
  match l with
  | .lamed => if joined && n = 0x5D0 then some (0, .nothing) else none
  | .ya => if joined && n = 0x1A17 then some (0, .letter .vowelYa true) else none
  | .vowelYa => if n = 0x1A15 then some (0, .nothing) else none
  | .tifinagh =>
    if n = 0x2D7F then some (0, .letter .tifinaghJoiner true)
    else if joined && isTifinagh n then some (0, .nothing)
    else none
  | .tifinaghJoiner => if isTifinagh n then some (0, .nothing) else none
  | .lisuTone => if 0xA4F8 ≤ n && n ≤ 0xA4FB then some (0, .nothing) else none
  | .orkhonI => if joined && n = 0x10C32 then some (0, .nothing) else none
  | .khmer => if n = 0x17D2 then some (0, .nothing) else none

/-! ### Joining -/

/-- The follower that a tag makes of the tags behind it: up to six letters, or three digits in front
of at most four letters; the flag in front of enough of them completes an emoji. -/
def tagsBefore (letters digits n : Nat) : Option Follower :=
  if 0xE0061 ≤ n && n ≤ 0xE007A then
    if digits = 0 && letters < 6 then some (.joinedTags (letters + 1) 0) else none
  else if 0xE0030 ≤ n && n ≤ 0xE0039 then
    if digits = 0 then (if letters ≤ 4 then some (.joinedTags 0 1) else none)
    else if digits < 3 then some (.joinedTags 0 (digits + 1))
    else none
  else if n = 0x1F3F4 && (3 ≤ letters || digits = 3) then some .emoji
  else none

/-- What a character in front of a follower makes of it, if they join: the columns to be counted
now, those of the follower included, and what the character before them meets. -/
def Follower.join (f : Follower) (c : Char) : Option (Nat × Follower) :=
  match f with
  | .nothing | .joinedKeycap => none
  | .emoji => if c = joiner then some (0, .joinedEmoji) else none
  | .tone =>
    if c = joiner then some (0, .joinedEmoji)
    else if Emoji.toned.contains c then some (0, .emoji)
    else none
  | .indicators n joined =>
    if c = joiner then (if 2 ≤ n then some (f.pending, .joinedEmoji) else none)
    else if Emoji.isIndicator c then
      some (if joined then 2 * ((n + 1) % 2) else 1, .indicators (n + 1) joined)
    else none
  | .joinedEmoji =>
    if c = '\u20e3' then some (0, .joinedKeycap)
    else if Emoji.isIndicator c then some (0, .indicators 1 true)
    else if Emoji.isTone c then some (0, .tone)
    else if c.toNat = 0xE007F then some (0, .joinedTags 0 0)
    else if Emoji.pictures.contains c then some (0, .emoji)
    else none
  | .joinedTags letters digits => (tagsBefore letters digits c.toNat).map (0, ·)
  | .letter l joined =>
    if c = joiner then some (0, .letter l true)
    else if ignorableMarks.contains c then some (0, .letter l joined)
    else l.join joined c.toNat
  | .alef =>
    if lams.contains c then some (0, .nothing)
    else if isBetweenArabic c then some (0, .alef)
    else none
  | .vowelE =>
    if c.toNat = 0x16D63 || c.toNat = 0x16D69 then some (0, .nothing)
    else if c.toNat = 0x16D67 then some (0, .vowelAi)
    else if c.toNat = 0x16D68 then some (1, .vowelE)
    else none
  | .vowelAi => if c.toNat = 0x16D63 then some (0, .nothing) else none

/-- What a character is to the one in front of it, whatever stands behind. -/
def Follower.ofChar (c : Char) : Follower :=
  let n := c.toNat
  if n = 0x5DC then .letter .lamed false
  else if alefs.contains c then .alef
  else if khmerLetters.contains c then .letter .khmer true
  else if n = 0x1A10 then .letter .ya false
  else if isTifinagh n then .letter .tifinagh false
  else if n = 0xA4FC || n = 0xA4FD then .letter .lisuTone true
  else if n = 0x10C03 then .letter .orkhonI false
  else if n = 0x16D67 then .vowelE
  else if n = 0x16D68 then .vowelAi
  else if Emoji.isIndicator c then .indicators 1 false
  else if Emoji.isTone c then .tone
  else if Emoji.pictures.contains c then .emoji
  else .nothing

/-- A character in front of a follower that it does not join with. -/
def Follower.apart (f : Follower) (c : Char) : Nat × Follower :=
  (f.pending + (columnsOf c - (ofChar c).pending), ofChar c)

/-! ### Selectors -/

/-- **What has been read of a line from its end**: what may join, and the look that a selector in
front of it asks for. -/
structure Ahead where
  follower : Follower
  look : Option Look
  deriving DecidableEq, Repr

/-- At the end of a line nothing has been read. -/
def Ahead.atEnd : Ahead := ⟨.nothing, none⟩

/-- The look a character asks for, if it is a selector. -/
def lookOf? (c : Char) : Option Look :=
  if c = '\ufe0f' then some .picture
  else if c = '\ufe0e' then some .sign
  else if c = '\ufe01' then some .full
  else none

/-- Whether a follower is still there behind a selector. -/
def Follower.survives (f : Follower) (l : Look) : Bool :=
  match f with
  | .letter _ _ | .alef => true
  | .joinedEmoji | .joinedKeycap => l = .picture
  | _ => false

/-- What is left of the characters read where the selector in front of them does not apply: only
letters join across it. -/
def Ahead.unselected (a : Ahead) : Follower :=
  match a.look, a.follower with
  | none, f => f
  | some _, .letter l joined => .letter l joined
  | some _, .alef => .alef
  | some _, _ => .nothing

/-- A selector in front of the characters read. -/
def Ahead.select (a : Ahead) (l : Look) : Nat × Ahead :=
  let f := a.unselected
  if f.survives l then (0, ⟨f, some l⟩) else (f.pending, ⟨.nothing, some l⟩)

/-- Whether a quotation mark that has a form of full width. -/
def isQuotationMark (c : Char) : Bool :=
  c = '\u2018' || c = '\u2019' || c = '\u201c' || c = '\u201d'

/-- The columns of a character to which the selector behind it applies, and what it then is to the
one in front of it. -/
def Ahead.look? (a : Ahead) (c : Char) : Option (Nat × Follower) :=
  match a.look with
  | some .picture =>
    if Emoji.styled.contains c then
      some (if a.follower = .joinedEmoji || a.follower = .joinedKeycap then 0 else 2, .emoji)
    else none
  | some .sign => if Emoji.hasSign c then some (1, .nothing) else none
  | some .full => if isQuotationMark c then some (2, .nothing) else none
  | none => none

/-- **One more character** in front of those read: the columns to be counted now. -/
def Ahead.step (a : Ahead) (c : Char) : Nat × Ahead :=
  match lookOf? c with
  | some l => a.select l
  | none =>
    match a.look? c with
    | some (n, f) => (a.follower.pending + n, ⟨f, none⟩)
    | none =>
      let f := a.unselected
      let (n, f) :=
        if c.toNat ≤ 0xA0 then (f.pending + 1, .nothing) else (f.join c).getD (f.apart c)
      (n, ⟨f, none⟩)

/-! ### Lines -/

/-- The columns counted on the way from the end of a line to its start, and what is left there. -/
def measured (line : List Char) : Nat × Ahead :=
  line.foldr (fun c r => let (n, a) := r.2.step c; (r.1 + n, a)) (0, .atEnd)

/-- **The columns a line takes.** -/
def columns (line : List Char) : Nat :=
  let (n, a) := measured line
  n + a.follower.pending

theorem measured_cons (c : Char) (cs : List Char) :
    measured (c :: cs)
      = ((measured cs).1 + ((measured cs).2.step c).1, ((measured cs).2.step c).2) := rfl

theorem step_atEnd_blank : Ahead.atEnd.step ' ' = (1, .atEnd) := rfl

theorem measured_blanks (n : Nat) : measured (List.replicate n ' ') = (n, .atEnd) := by
  induction n with
  | zero => rfl
  | succ n ih => rw [List.replicate_succ, measured_cons, ih, step_atEnd_blank]

theorem measured_append_blanks (line : List Char) (n : Nat) :
    measured (line ++ List.replicate n ' ') = ((measured line).1 + n, (measured line).2) := by
  induction line with
  | nil => rw [List.nil_append, measured_blanks]; simp [measured]
  | cons c cs ih =>
    rw [List.cons_append, measured_cons, measured_cons, ih, Nat.add_right_comm]

/-- Blanks behind a line add their number. -/
theorem columns_append_blanks (line : List Char) (n : Nat) :
    columns (line ++ List.replicate n ' ') = columns line + n := by
  simp only [columns, measured_append_blanks, Nat.add_right_comm]

end BlockLedger.Text
