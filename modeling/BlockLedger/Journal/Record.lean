import BlockLedger.Block.Json
import BlockLedger.Pieces
import BlockLedger.Text.CodePoints

/-!
# Records of blocks

Blocks are kept as a byte string with one record for each: its JSON on one line, ended by a line
feed. What stands behind the last line feed is a record that was cut off, and `completePart` leaves
it out.

Reading goes line by line. A line may also end with carriage return and line feed, the last one may
lack its end, and blank lines are skipped. The first line that is not UTF-8 or holds no block decides
what is reported.
-/

namespace BlockLedger

/-- The byte that ends a record. -/
def lineFeed : UInt8 := 10

/-- The byte that may stand before the end of a line. -/
def carriageReturn : UInt8 := 13

/-! ### Writing -/

/-- The record of a block. -/
def Block.toRecord (b : Block) : Bytes := Bytes.ofText b.encode ++ [lineFeed]

/-- The records of some blocks. -/
def recordsOf (blocks : List Block) : Bytes := blocks.flatMap Block.toRecord

/-- The part up to the last line feed. -/
def completePart (bytes : Bytes) : Bytes :=
  (bytes.reverse.dropWhile (· ≠ lineFeed)).reverse

/-! ### Reading -/

/-- A line without the carriage return at its end. -/
def withoutReturn (line : Bytes) : Bytes :=
  if line.getLast? = some carriageReturn then line.dropLast else line

/-- The lines of a byte string. -/
def linesOf (bytes : Bytes) : List Bytes :=
  let parts := pieces lineFeed bytes
  parts.dropLast.map withoutReturn ++ (parts.drop (parts.length - 1)).filter (· ≠ [])

/-- Why records cannot be read: some line is not UTF-8, or the line with the given number holds no
block. -/
inductive RecordFault where
  | notText
  | notBlock (line : Nat) (cause : Json.Fault)
  deriving DecidableEq, Repr

/-- The blocks on some lines, the first of which has the given number. -/
def readLines (number : Nat) : List Bytes → Except RecordFault (List Block)
  | [] => .ok []
  | line :: rest =>
    match Bytes.text? line with
    | none => .error .notText
    | some text =>
      if Text.isBlank text then readLines (number + 1) rest
      else match Block.decode text with
        | .error cause => .error (.notBlock number cause)
        | .ok block =>
          match readLines (number + 1) rest with
          | .error f => .error f
          | .ok blocks => .ok (block :: blocks)

/-- **The blocks in a byte string.** -/
def readRecords (bytes : Bytes) : Except RecordFault (List Block) := readLines 1 (linesOf bytes)

end BlockLedger
