import BlockLedger.Files
import BlockLedger.Journal.Record

/-!
# The journal

A journal is an open file of records. Opening it makes the file and the directories it lies in if
they are missing, and cuts off what an interrupted append has left. From then on the journal knows
how many bytes belong to complete records. Opening can fail at any point (`Journal.attemptOpen`), and
then the file may have been made or cut already.

When an append fails, the file is cut back to those bytes. If that fails too, nobody knows what the
file holds, and the journal takes no more blocks until it is opened again.
-/

namespace BlockLedger

/-- **An open journal**: its path and its file, the number of bytes that belong to complete records,
and whether the file may hold more than those. -/
structure Journal where
  path : String
  handle : Handle
  committed : Nat
  poisoned : Bool
  deriving DecidableEq

/-- What can go wrong with a journal. -/
inductive JournalFault where
  | files (path : String) (cause : FileFault)
  | notBlock (path : String) (line : Nat) (cause : Json.Fault)
  | poisoned (path : String)
  deriving DecidableEq, Repr

/-- The message for a fault, without what a cause adds. -/
def JournalFault.summary : JournalFault → String
  | .files path cause => "journal I/O failed for " ++ path ++ ": " ++ cause.message
  | .notBlock path line _ =>
    "journal " ++ path ++ " line " ++ toString line ++ " is not a valid block: "
  | .poisoned path =>
    "journal " ++ path ++ " holds an unrecoverable partial write, reopen it to continue"

/-! ### Reading -/

/-- **The blocks in the file at a path.** -/
def readBlocks (fs : FileSystem) (path : String) : Except JournalFault (List Block) :=
  match fs.read path with
  | .error e => .error (.files path e)
  | .ok bytes =>
    match readRecords bytes with
    | .error .notText => .error (.files path .notText)
    | .error (.notBlock line cause) => .error (.notBlock path line cause)
    | .ok blocks => .ok blocks

namespace Journal

/-! ### Opening -/

/-- Makes the directories in which a journal is to lie, with what befalls that. -/
def prepare (mishap : Option Mishap) (fs : FileSystem) (path : String) :
    Except JournalFault Unit × FileSystem :=
  match Path.parent? path with
  | none => (.ok (), fs)
  | some parent =>
    if parent = "" then (.ok (), fs)
    else match fs.makeDirectoriesWith mishap parent with
      | (.ok (), made) => (.ok (), made)
      | (.error e, partly) => (.error (.files parent e), partly)

/-- Cuts an open file back to its complete records. -/
def trim (fs : FileSystem) (handle : Handle) : Nat × FileSystem :=
  let bytes := fs.bytesOf handle
  let committed := (completePart bytes).length
  (committed, if committed < bytes.length then fs.resize handle committed else fs)

/-- Opening a journal, with what befalls making its directories and what befalls opening its file.
The latter may come before there is such a file. Once it is open there is one, and a failure comes
before its end has been cut off or behind that. -/
def openWith (making opening : Option Mishap) (fs : FileSystem) (path : String) :
    Except JournalFault Journal × FileSystem :=
  match prepare making fs path with
  | (.error e, partly) => (.error e, partly)
  | (.ok (), ready) =>
    match ready.openFile path with
    | .error e => (.error (.files path e), ready)
    | .ok (handle, opened) =>
      let (committed, trimmed) := trim opened handle
      match opening with
      | none => (.ok ⟨path, handle, committed, false⟩, trimmed)
      | some m =>
        (.error (.files path m.cause), match m.undo with
          | .done => ready
          | .unsettled => trimmed
          | .failed => opened)

/-- **Opening a journal**, when nothing befalls it. -/
def openAt (fs : FileSystem) (path : String) : Except JournalFault Journal × FileSystem :=
  openWith none none fs path

/-- **An attempt to open a journal.** -/
def attemptOpen (fs : FileSystem) (path : String) : Except JournalFault Journal × FileSystem :=
  let (making, fs) := fs.takeMishap
  let (opening, fs) := fs.takeMishap
  openWith making opening fs path

/-- The blocks in the journal. -/
def load (fs : FileSystem) (j : Journal) : Except JournalFault (List Block) := readBlocks fs j.path

/-! ### Appending -/

/-- What an append has led to. -/
structure Appended where
  result : Except JournalFault Unit
  journal : Journal
  files : FileSystem

/-- Cuts the file back after a failed append. -/
def rollBack (fs : FileSystem) (j : Journal) : Undo → Journal × FileSystem
  | .done => (j, fs.resize j.handle j.committed)
  | .unsettled => ({ j with poisoned := true }, fs.resize j.handle j.committed)
  | .failed => ({ j with poisoned := true }, fs)

/-- **Appending blocks**, all or none. -/
def append (fs : FileSystem) (j : Journal) (blocks : List Block) : Appended :=
  if j.poisoned then ⟨.error (.poisoned j.path), j, fs⟩
  else
    let bytes := recordsOf blocks
    match fs.nextMishap j.handle bytes.length with
    | (none, fs) =>
      ⟨.ok (), { j with committed := j.committed + bytes.length }, fs.extend j.handle bytes⟩
    | (some m, fs) =>
      let (j', fs') := rollBack (fs.extend j.handle (bytes.take m.written)) j m.undo
      ⟨.error (.files j.path m.cause), j', fs'⟩

end Journal

end BlockLedger
