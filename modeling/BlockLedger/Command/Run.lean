import BlockLedger.Command.Report

/-!
# Running commands

A command is run on a file system at a point in time (`Invocation.run`). Nothing else has an
influence on it. The commands on a node open its ledger first: they read the settings, open the
journal and take in what it holds. Checking a bundle needs no node.
-/

namespace BlockLedger

/-- **What running a command has led to.** -/
structure Run where
  ending : Ending
  files : FileSystem

namespace Run

/-- A run that ends with a report. -/
def report (fs : FileSystem) (r : Report) : Run := ⟨.reported r, fs⟩

/-- A run that fails. -/
def fail (fs : FileSystem) (f : Failure) : Run := ⟨.failed f, fs⟩

/-! ### Setting up a node -/

/-- Makes the home directory if there is nothing of its name. -/
def makeHome (fs : FileSystem) (home : String) : Except FileFault Unit × FileSystem :=
  if fs.exists? home then (.ok (), fs) else fs.attemptDirectories home

/-- Why a node is not set up in a home directory that has settings. Broken settings are told apart
from those of a node, and may only be overwritten by force. -/
def occupied? (fs : FileSystem) (home : String) (force : Bool) : Option Failure :=
  if force || !Settings.present fs home then none
  else match Settings.load fs home with
    | .error e => some (.settingsLost e)
    | .ok _ => some (.alreadyInitialized home)

/-- Writes the settings and opens the journal. -/
def furnish (fs : FileSystem) (home : String) (limit : Nat) : Run :=
  let s : Settings := { Settings.standard with limit }
  match Settings.attemptSave fs home s with
  | (.error e, fs) => fail fs (.settings e)
  | (.ok (), fs) =>
    match Journal.attemptOpen fs (s.journalPath home) with
    | (.error e, fs) => fail fs (.journal e)
    | (.ok j, fs) => report fs (.initialized home j.path)

/-- **Sets up a node.** -/
def init (fs : FileSystem) (home : String) (limit : Nat) (force : Bool) : Run :=
  match makeHome fs home with
  | (.error e, fs) => fail fs (.homeNotMade home e)
  | (.ok (), fs) =>
    match occupied? fs home force with
    | some f => fail fs f
    | none => if limit = 0 then fail fs .zeroLimit else furnish fs home limit

/-! ### Working with a node -/

/-- Opens the ledger of the node in a home directory. -/
def openLedger (fs : FileSystem) (home : String) : Except Failure Ledger × FileSystem :=
  if !Settings.present fs home then (.error (.notInitialized home), fs)
  else match Settings.load fs home with
    | .error e => (.error (.settings e), fs)
    | .ok s =>
      let path := s.journalPath home
      match Journal.attemptOpen fs path with
      | (.error e, fs) => (.error (.journalNotOpened path e), fs)
      | (.ok j, fs) =>
        match Ledger.ofJournal s.limit fs j with
        | .error e => (.error (.journalNotReplayed path e), fs)
        | .ok l => (.ok l, fs)

/-- Goes on with the ledger of a node, if it can be opened. -/
def withLedger (fs : FileSystem) (home : String) (go : Ledger → FileSystem → Run) : Run :=
  match openLedger fs home with
  | (.error f, fs) => fail fs f
  | (.ok l, fs) => go l fs

/-- The payload of a block to be taken in. -/
def payload (fs : FileSystem) : PayloadSource → Except Failure Bytes
  | .nowhere => .ok []
  | .text s => .ok (Bytes.ofText s)
  | .file path => (fs.read path).mapError (.payloadNotRead path)

/-- The block to be taken in. -/
def block (s : Submission) (payload : Bytes) (now : Instant) : Block where
  id := s.id
  payload := payload
  table := s.table
  operation := s.operation
  timestamp := now.seconds
  metadata := .ofList s.metadata

/-- **Takes in a block.** -/
def submit (fs : FileSystem) (home : String) (now : Instant) (s : Submission) : Run :=
  match payload fs s.payload with
  | .error f => fail fs f
  | .ok bytes =>
    withLedger fs home fun l fs =>
      let o := l.submit fs (block s bytes now)
      match o.result with
      | .error e => fail o.files (.refused e)
      | .ok r => report o.files (.receipt r)

/-- Tells about the root. -/
def root (fs : FileSystem) (home : String) (now : Instant) (table : Option String) : Run :=
  withLedger fs home fun l fs => report fs (.root (l.rootInfo table) now)

/-- **Makes a bundle**, and writes it to a file if one is given. -/
def prove (fs : FileSystem) (home : String) (ids : List String) (out : Option String) : Run :=
  withLedger fs home fun l fs =>
    match l.bundle ids with
    | .error e => fail fs (.refused e)
    | .ok b =>
      match out with
      | none => report fs (.shownBundle b)
      | some path =>
        match fs.attemptWrite path (Bytes.ofText b.toJson.indented) with
        | (.error e, fs) => fail fs (.bundleNotWritten path e)
        | (.ok (), fs) => report fs (.writtenBundle b)

/-- **Checks a bundle** against the given root or else its own. -/
def verify (fs : FileSystem) (path : String) (trusted : Option Digest) : Run :=
  match fs.readText path with
  | .error e => fail fs (.bundleNotRead path e)
  | .ok text =>
    match Bundle.decode text with
    | .error e => fail fs (.bundleInvalid path e)
    | .ok b =>
      let root := trusted.getD b.root
      match b.verifyAgainst root with
      | .error e => fail fs (.bundleMalformed e)
      | .ok false => ⟨.rejected root, fs⟩
      | .ok true => report fs (.verified root b.leaves.length)

/-- **Compares** the tree of a node with that of another journal. -/
def diff (fs : FileSystem) (home : String) (path : String) : Run :=
  withLedger fs home fun l fs =>
    match readBlocks fs path with
    | .error e => fail fs (.remoteNotLoaded path e)
    | .ok blocks => report fs (.difference (l.difference (.ofBlocks blocks)))

end Run

/-- **Runs a command.** -/
def Invocation.run (i : Invocation) (fs : FileSystem) (now : Instant) : Run :=
  match i.command with
  | .init limit force => Run.init fs i.home limit force
  | .submit s => Run.submit fs i.home now s
  | .root table => Run.root fs i.home now table
  | .prove ids out => Run.prove fs i.home ids out
  | .verify bundle root => Run.verify fs bundle root
  | .diff journal => Run.diff fs i.home journal

end BlockLedger
