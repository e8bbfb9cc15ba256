import BlockLedger.Command
import BlockLedger.Command.Failure
import BlockLedger.Instant
import BlockLedger.Text.Grid

/-!
# Reports

A command ends with a report, with a proof that is refused, or with a failure (`Ending`). Each has
two forms: one line of JSON, and a plain one for people, which is a line with a coloured mark in
front of it or a grid. A bundle that is not written to a file is shown as indented JSON in both.
-/

namespace BlockLedger

/-- **What a command reports.** -/
inductive Report where
  | initialized (home journal : String)
  | receipt (receipt : Ledger.Receipt)
  | root (info : Ledger.RootInfo) (builtAt : Instant)
  | shownBundle (bundle : Bundle)
  | writtenBundle (bundle : Bundle)
  | verified (root : Digest) (leaves : Nat)
  | difference (difference : Difference)
  deriving DecidableEq

/-- **How a command ends.** -/
inductive Ending where
  | reported (report : Report)
  | rejected (root : Digest)
  | failed (failure : Failure)
  deriving DecidableEq

namespace Report

/-! ### JSON -/

/-- What is told about a root, with the text of the time at which the tree was built. -/
def rootToJson (info : Ledger.RootInfo) (builtAt : String) : Json.Value :=
  .object [
    ("root_hash", .optional Digest.toJson info.root),
    ("leaf_count", .nat info.leafCount),
    ("block_count", .nat info.blockCount),
    ("built_at", .text builtAt),
    ("generation", .nat info.generation)]

/-- The report as a value. -/
def toJson : Report → Json.Value
  | .initialized home journal => .object [("home", .text home), ("journal", .text journal)]
  | .receipt r =>
    .object [
      ("root_hash", r.root.toJson), ("leaf_hash", r.leaf.toJson), ("leaf_count", .nat r.leafCount)]
  | .root info builtAt => rootToJson info (builtAt.render "Z")
  | .shownBundle b => b.toJson
  | .writtenBundle b => b.toJson
  | .verified d leaves => .object [("root_hash", d.toJson), ("leaves", .nat leaves)]
  | .difference d => d.toJson

/-! ### Plain text -/

/-- A line with a green mark in front of it. -/
def infoLine (s : String) : String := "\x1b[32m[INFO]\x1b[39m " ++ s

/-- What is told about a root, with the text of the time at which the tree was built. -/
def rootGrid (info : Ledger.RootInfo) (builtAt : String) : Text.Grid where
  headings := ["Root Hash", "Leaves", "Blocks", "Generation", "Built At"]
  rows := [[
    (info.root.map Digest.hex).getD "<none>", toString info.leafCount, toString info.blockCount,
    toString info.generation, builtAt]]

/-- The answer to an accepted block. -/
def receiptGrid (r : Ledger.Receipt) : Text.Grid where
  headings := ["Root Hash", "Leaf Hash", "Leaves"]
  rows := [[r.root.hex, r.leaf.hex, toString r.leafCount]]

/-- What a bundle is made of. -/
def bundleGrid (b : Bundle) : Text.Grid where
  headings := ["Root Hash", "Leaves", "Levels", "Supplied Hashes"]
  rows := [[
    b.root.hex, toString b.leaves.length, toString b.proof.levels.length,
    toString b.proof.suppliedCount]]

/-- The leaves that differ. -/
def differenceGrid (d : Difference) : Text.Grid where
  headings := ["Side", "Position", "Block ID", "Leaf Hash"]
  rows := d.entries.map fun e =>
    [Difference.sideText e.side, toString e.position, e.id, e.hash.hex]

/-- The parts of the report, each of which ends with a line break when it is shown. -/
def plain : Report → List String
  | .initialized home journal =>
    [infoLine ("Initialized node in " ++ home), infoLine ("Block journal at " ++ journal)]
  | .receipt r => [(receiptGrid r).render]
  | .root info builtAt => [(rootGrid info (builtAt.render "+00:00")).render]
  | .shownBundle b => [b.toJson.indented]
  | .writtenBundle b => (bundleGrid b).render :: b.leaves.map fun l => "  " ++ l.1
  | .verified d leaves =>
    [infoLine ("Proof of " ++ toString leaves ++ " leaves is valid for root " ++ d.hex)]
  | .difference d =>
    if d.entries = [] then [infoLine "Trees are identical"] else [(differenceGrid d).render]

/-- The parts of the report in one of its forms. -/
def parts (format : Format) (r : Report) : List String :=
  match format, r with
  | .json, .shownBundle b => [b.toJson.indented]
  | .json, r => [r.toJson.compact]
  | .plain, r => r.plain

end Report

namespace Ending

/-- The exit code. -/
def exitCode : Ending → Nat
  | .reported _ => 0
  | .rejected _ => 2
  | .failed _ => 1

/-- What is said about a failure or a refused proof as a grid. -/
def faultGrid (s : String) : Text.Grid := ⟨["ERROR"], [[s]]⟩

/-- The causes of a failure as a value, in the given words. -/
def chainToJson (words : Cause → String) (f : Failure) : Json.Value :=
  .array (f.causes.map fun c => .text (words c))

/-- The parts of what is shown. -/
def parts (format : Format) : Ending → List String
  | .reported r => r.parts format
  | .rejected root =>
    match format with
    | .json => [(Json.Value.object [
        ("ProofRejected", .object [("root_hash", root.toJson)])]).compact]
    | .plain => [(faultGrid ("Rejected: proof does not match root " ++ root.hex)).render]
  | .failed f =>
    match format with
    | .json => [(Json.Value.object [("Other", chainToJson Cause.message f)]).compact]
    | .plain =>
      [(faultGrid ("Error: " ++ "\n".intercalate (f.causes.map Cause.message))).render]

/-- **What is shown.** -/
def text (format : Format) (e : Ending) : String :=
  String.join ((e.parts format).map (· ++ "\n"))

end Ending

end BlockLedger
