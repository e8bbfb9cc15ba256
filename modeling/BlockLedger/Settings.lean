import BlockLedger.Files
import BlockLedger.Ledger
import BlockLedger.Text.Quoted
import BlockLedger.Toml.Reader

/-!
# Settings

The settings of a node are kept in its home directory: the limit on proofs and the path of the
journal, which is seen from the home directory. Either may be missing; a journal without a path is
refused. Keys that say nothing here are left alone.

A number that TOML cannot hold is refused before anything is written.
-/

namespace BlockLedger

/-- **The settings of a node.** -/
structure Settings where
  limit : Nat
  journal : String
  deriving DecidableEq, Repr

namespace Settings

/-- The name of the settings file. -/
def fileName : String := "config.toml"

/-- Where nothing else is set. -/
def standard : Settings := ⟨defaultProofLimit, "blocks.jsonl"⟩

instance : Inhabited Settings := ⟨standard⟩

/-- The path of the settings in a home directory. -/
def path (home : String) : String := Path.join home fileName

/-- The path of the journal of a node. -/
def journalPath (s : Settings) (home : String) : String := Path.join home s.journal

/-! ### Reading -/

/-- A limit as a value. -/
def limitValue? : Toml.Value → Option Nat
  | .integer n => if 0 ≤ n then some n.toNat else none
  | _ => none

/-- The limit in the value that stands for the server: a table with keys, or the fields in order. A
point in time counts as a table without known keys. -/
def limit? : Toml.Value → Option Nat
  | .table _ ms =>
    match ms.lookup "max_proof_leaves" with
    | none => some standard.limit
    | some v => limitValue? v
  | .array [] => some standard.limit
  | .array (v :: _) => limitValue? v
  | .time => some standard.limit
  | _ => none

/-- A path as a value. -/
def pathValue? : Toml.Value → Option String
  | .text s => some s
  | _ => none

/-- The path in the value that stands for the journal. -/
def journal? : Toml.Value → Option String
  | .table _ ms => (ms.lookup "path").bind pathValue?
  | .array (v :: _) => pathValue? v
  | _ => none

/-- The settings in a table. -/
def ofMembers (ms : Toml.Members) : Option Settings := do
  let limit ← match ms.lookup "server" with
    | none => some standard.limit
    | some v => limit? v
  let journal ← match ms.lookup "journal" with
    | none => some standard.journal
    | some v => journal? v
  return ⟨limit, journal⟩

/-- **The settings in a text.** -/
def parse (s : String) : Option Settings := (Toml.parse s).bind ofMembers

/-! ### Writing -/

/-- The settings as a text. -/
def render (s : Settings) : String :=
  "[server]\nmax_proof_leaves = " ++ toString s.limit ++ "\n\n[journal]\npath = "
    ++ Toml.quoted s.journal ++ "\n"

/-! ### Files -/

/-- What can go wrong with settings. -/
inductive Fault where
  | unreadable (path : String) (cause : FileFault)
  | invalid (path : String)
  | outOfRange
  | unwritable (path : String) (cause : FileFault)
  deriving DecidableEq, Repr

def Fault.message : Fault → String
  | .unreadable path _ => "failed to read configuration from " ++ Text.quoted path
  | .invalid path => "invalid configuration in " ++ Text.quoted path
  | .outOfRange => "out-of-range value for u64 type"
  | .unwritable path _ => "failed to write configuration to " ++ Text.quoted path

/-- Whether a home directory has settings. -/
def present (fs : FileSystem) (home : String) : Bool := fs.isFile (path home)

/-- **Reads the settings of a home directory.** -/
def load (fs : FileSystem) (home : String) : Except Fault Settings :=
  match fs.readText (path home) with
  | .error e => .error (.unreadable (path home) e)
  | .ok text =>
    match parse text with
    | none => .error (.invalid (path home))
    | some s => .ok s

/-- Writes settings to a home directory, when nothing befalls that. -/
def save (fs : FileSystem) (home : String) (s : Settings) : Except Fault FileSystem :=
  if signedLimit ≤ s.limit then .error .outOfRange
  else match fs.write (path home) (Bytes.ofText s.render) with
    | .error e => .error (.unwritable (path home) e)
    | .ok written => .ok written

/-- **An attempt to write settings** to a home directory. -/
def attemptSave (fs : FileSystem) (home : String) (s : Settings) : Except Fault Unit × FileSystem :=
  if signedLimit ≤ s.limit then (.error .outOfRange, fs)
  else match fs.attemptWrite (path home) (Bytes.ofText s.render) with
    | (.error e, partly) => (.error (.unwritable (path home) e), partly)
    | (.ok (), written) => (.ok (), written)

end Settings

end BlockLedger
