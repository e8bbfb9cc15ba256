import BlockLedger.Settings

/-!
# Failures

Why a command fails. A failure has a chain of causes: what the command wanted to do first, and what
stood in the way last. The words of a cause that lies in a JSON or TOML text are left to whoever
shows it.
-/

namespace BlockLedger

/-- One cause: words, words followed by those for a fault in a JSON text, or those for a fault in a
TOML text. -/
inductive Cause where
  | text (s : String)
  | json (before : String) (fault : Json.Fault)
  | toml
  deriving DecidableEq, Repr

/-- **Why a command fails.** -/
inductive Failure where
  | homeNotMade (home : String) (cause : FileFault)
  | settingsLost (fault : Settings.Fault)
  | alreadyInitialized (home : String)
  | zeroLimit
  | settings (fault : Settings.Fault)
  | journal (fault : JournalFault)
  | notInitialized (home : String)
  | journalNotOpened (path : String) (fault : JournalFault)
  | journalNotReplayed (path : String) (fault : LedgerFault)
  | payloadNotRead (path : String) (cause : FileFault)
  | refused (fault : LedgerFault)
  | bundleNotWritten (path : String) (cause : FileFault)
  | bundleNotRead (path : String) (cause : FileFault)
  | bundleInvalid (path : String) (fault : Json.Fault)
  | bundleMalformed (fault : ReplayFault)
  | remoteNotLoaded (path : String) (fault : JournalFault)
  deriving DecidableEq, Repr

/-! ### Chains of causes -/

/-- The causes of a fault in settings. -/
def Settings.Fault.causes (f : Settings.Fault) : List Cause :=
  .text f.message :: match f with
    | .unreadable _ cause => [.text cause.message]
    | .invalid _ => [.toml]
    | .outOfRange => []
    | .unwritable _ cause => [.text cause.message]

/-- The causes of a fault in a journal. -/
def JournalFault.causes (f : JournalFault) : List Cause :=
  match f with
  | .files _ cause => [.text f.summary, .text cause.message]
  | .notBlock _ _ cause => [.json f.summary cause, .json "" cause]
  | .poisoned _ => [.text f.summary]

/-- The causes of a ledger's refusal. -/
def LedgerFault.causes (f : LedgerFault) : List Cause :=
  match f with
  | .journal cause => cause.causes
  | _ => [.text f.summary]

/-- The causes for which a proof is not replayed. -/
def ReplayFault.causes (f : ReplayFault) : List Cause :=
  .text f.message :: match f with
    | .noLeaves => []
    | .malformed defect => [.text defect.message]

/-- **The causes of a failure.** -/
def Failure.causes : Failure → List Cause
  | .homeNotMade home cause =>
    [.text ("failed to create directory " ++ Text.quoted home), .text cause.message]
  | .settingsLost fault =>
    [.text ("Failed to load existing configuration: " ++ fault.message)]
  | .alreadyInitialized home =>
    [.text ("Node is already initialized in " ++ Text.quoted home)]
  | .zeroLimit => [.text "--max-proof-leaves must be at least 1"]
  | .settings fault => fault.causes
  | .journal fault => fault.causes
  | .notInitialized home =>
    [.text ("Node is not initialized in " ++ Text.quoted home ++ ", run "
      ++ Json.named "merklesync init" ++ " first")]
  | .journalNotOpened path fault =>
    .text ("failed to open block journal " ++ Text.quoted path) :: fault.causes
  | .journalNotReplayed path fault =>
    .text ("failed to replay block journal " ++ Text.quoted path) :: fault.causes
  | .payloadNotRead path cause =>
    [.text ("failed to read payload from " ++ Text.quoted path), .text cause.message]
  | .refused fault => fault.causes
  | .bundleNotWritten path cause =>
    [.text ("failed to write proof bundle to " ++ Text.quoted path), .text cause.message]
  | .bundleNotRead path cause =>
    [.text ("failed to read proof bundle " ++ Text.quoted path), .text cause.message]
  | .bundleInvalid path fault =>
    [.text ("invalid proof bundle " ++ Text.quoted path), .json "" fault]
  | .bundleMalformed fault => .text "proof bundle is malformed" :: fault.causes
  | .remoteNotLoaded path fault =>
    .text ("failed to load remote journal " ++ Text.quoted path) :: fault.causes

/-- A cause in words. -/
def Cause.message : Cause → String
  | .text s => s
  | .json before fault => before ++ fault.message
  | .toml => "the text is not a table of settings"

end BlockLedger
