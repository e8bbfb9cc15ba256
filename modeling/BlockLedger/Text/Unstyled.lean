import BlockLedger.Bytes

/-!
# Texts without control sequences

A message is written with control sequences that set parts of it off (`emphasized`). Where no
terminal shows it, all sequences are taken out of it (`unstyled`), and with them the control
characters that are no white space. So what a message repeats of somebody's typing cannot steer a
terminal either. A sequence that the typing leaves open ends at the next escape character at the
latest, which is that of the sequence behind it.
-/

namespace BlockLedger.Text

/-- How far the head of a control string has come. -/
inductive ControlHead where
  | start
  | parameters
  | intermediates
  deriving DecidableEq, Repr

/-- Where in a control sequence a reader is: in none, behind the escape character, in a sequence
that ends with a character from `least` on, in the head of a control string, or in a string that
either a bell or a terminator ends. -/
inductive SequenceMode where
  | plain
  | escape
  | parameters (least : Nat)
  | control (head : ControlHead)
  | string (bell : Bool)
  deriving DecidableEq, Repr

/-- Whether a character is a blank or one of the controls that are white space. -/
def isAsciiSpace (c : Char) : Bool :=
  c = ' ' || c = '\t' || c = '\n' || c = '\x0c' || c = '\r'

/-- Whether a control character or the deletion mark. -/
def isAsciiControl (c : Char) : Bool := c.toNat < 0x20 || c.toNat = 0x7F

/-- Whether a character ends a string. Strings are read byte by byte, so a character does so if the
byte of the terminator is part of it. -/
def isTerminator (c : Char) : Bool := (Bytes.ofChars [c]).contains 0x9C

/-- Where the reader is behind an escape character and the next one. -/
def SequenceMode.afterEscape (c : Char) : SequenceMode :=
  if c = '[' then .parameters 0x40
  else if c = ']' then .string true
  else if c = 'P' then .control .start
  else if c = 'X' || c = '^' || c = '_' then .string false
  else if c.toNat < 0x30 then .parameters 0x30
  else if c.toNat < 0x7F then .plain
  else .escape

/-- Where the reader is behind the next character of the head of a control string. -/
def SequenceMode.afterHead (head : ControlHead) (c : Char) : SequenceMode :=
  let n := c.toNat
  if n < 0x20 || 0x7F ≤ n then .control head
  else if n < 0x30 then .control .intermediates
  else if n < 0x3C && head ≠ .intermediates then .control .parameters
  else if n < 0x40 && head = .start then .control .parameters
  else .string false

/-- Where the reader is behind the next character, and whether that is to be shown. -/
def SequenceMode.next (m : SequenceMode) (c : Char) : SequenceMode × Bool :=
  if c = '\x1b' then (.escape, false)
  else if c = '\x18' || c = '\x1a' then (.plain, false)
  else match m with
    | .plain => (.plain, !isAsciiControl c || isAsciiSpace c)
    | .string true => (if c = '\x07' then .plain else .string true, false)
    | .string false => (if isTerminator c then .plain else .string false, false)
    | .control head => (afterHead head c, false)
    | .escape =>
      if isAsciiControl c then
        if isAsciiSpace c then (.plain, true) else (.escape, false)
      else (afterEscape c, false)
    | .parameters least =>
      if isAsciiControl c then
        if isAsciiSpace c then (.plain, true) else (.parameters least, false)
      else if least ≤ c.toNat && c.toNat < 0x7F then (.plain, false)
      else (.parameters least, false)

/-- The characters to be shown. -/
def shownFrom : SequenceMode → List Char → List Char
  | _, [] => []
  | m, c :: cs =>
    let (m', shown) := m.next c
    if shown then c :: shownFrom m' cs else shownFrom m' cs

/-- **The text without control sequences.** -/
def unstyled (s : String) : String := String.ofList (shownFrom .plain s.toList)

/-- A part of a text set off by a style. -/
def emphasized (s : String) : String := "\x1b[1m" ++ s ++ "\x1b[0m"

/-- Nothing is added to a text. -/
theorem shownFrom_sublist (m : SequenceMode) (cs : List Char) : (shownFrom m cs).Sublist cs := by
  induction cs generalizing m with
  | nil => exact List.Sublist.refl _
  | cons c cs ih =>
    simp only [shownFrom]
    split
    · exact (ih _).cons_cons c
    · exact (ih _).cons c

end BlockLedger.Text
