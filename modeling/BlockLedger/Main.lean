import BlockLedger.Command.Reach
import Std.Time.DateTime.Timestamp

/-!
# The command line

Reads the surroundings, takes the files within reach of the command into a file system, runs the
command on it, writes back what has changed, and prints how the command has ended.
-/

namespace BlockLedger

/-- The path of a location. -/
def Location.path (location : Location) : String := "/" ++ "/".intercalate location

/-- Takes what stands at a location into a file system, unless it is known. -/
def observe (fs : FileSystem) (location : Location) : IO FileSystem := do
  if (fs.item? location).isSome then return fs
  if location = ["dev", "full"] then return { fs with items := (location, .full) :: fs.items }
  try
    let found ← IO.FS.realPath location.path
    if ← found.isDir then return fs.withDirectory location
    return fs.withFile location (← IO.FS.readBinFile found).toList
  catch _ => return fs

/-- Takes what stands at some paths and on the way to them into a file system. -/
def observePaths (fs : FileSystem) (paths : List String) : IO FileSystem :=
  (paths.flatMap fs.locations).foldlM observe fs

/-- Makes a change to the real files. -/
def carryOut (location : Location) : FileSystem.Change → IO Unit
  | .made => IO.FS.createDir location.path
  | .written bytes => IO.FS.writeBinFile location.path ⟨bytes.toArray⟩
  | .appended bytes => do
    let h ← IO.FS.Handle.mk location.path .append
    h.write ⟨bytes.toArray⟩
    h.flush

/-- The present time. -/
def present : IO Instant := do
  let t ← Std.Time.Timestamp.now
  return ⟨Int64.ofInt t.val.second.val, t.val.nano.val.toNat⟩

/-- What is said where words make no command. -/
def synopsis : String :=
  "usage: [--home <PATH>] [--output-format json|plain-text] "
    ++ "init|submit|root|prove|verify|diff <ARGUMENTS>"

/-- Says why words make no command. -/
def sayHalt (h : Command.Halt) : IO Unit :=
  match h with
  | .information => IO.println synopsis
  | h => IO.eprintln (h.headline.getD synopsis)

/-- Runs a command on the real files. -/
def execute (i : Invocation) : IO UInt32 := do
  let here := Path.names (← IO.currentDir).toString
  let blank : FileSystem := { items := [], contents := [], here, mishaps := [] }
  let known ← observePaths blank i.knownPaths
  let fs ← observePaths known (i.journalPaths known)
  let r := i.run fs (← present)
  for (location, change) in fs.changes r.files do
    carryOut location change
  IO.print (r.ending.text i.format)
  return r.ending.exitCode.toUInt32

end BlockLedger

open BlockLedger in
/-- **The program.** -/
def main (args : List String) : IO UInt32 := do
  let surroundings : Surroundings := ⟨← IO.getEnv "HOME", ← IO.getEnv "MERKLESYNC_HOME"⟩
  match Invocation.parse surroundings args with
  | .ok i => execute i
  | .error h =>
    sayHalt h
    return h.exitCode.toUInt32
