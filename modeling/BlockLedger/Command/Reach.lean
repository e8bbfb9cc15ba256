import BlockLedger.Command.Run

/-!
# The reach of a command

Before a command is run on real files, the part of them that it can look at or change has to be
known. That part is a list of paths (`Invocation.paths`). The journal's path stands in the settings,
so these are read first.
-/

namespace BlockLedger

/-- The paths that the command itself names. -/
def Command.paths : Command → List String
  | .submit s =>
    match s.payload with
    | .file path => [path]
    | _ => []
  | .prove _ (some path) => [path]
  | .verify bundle _ => [bundle]
  | .diff journal => [journal]
  | _ => []

namespace Invocation

/-- The paths that can be told before the settings are read. -/
def knownPaths (i : Invocation) : List String :=
  i.home :: Settings.path i.home :: i.command.paths

/-- The paths that the settings add to these: the journal with the directories it lies in. A new
node has the standard settings. -/
def journalPaths (i : Invocation) (fs : FileSystem) : List String :=
  let found := (Settings.load fs i.home).toOption.toList
  (Settings.standard :: found).map (·.journalPath i.home)

end Invocation

namespace FileSystem

/-! ### Taking in what is found -/

/-- The locations that a path leads through, from the outside in. -/
def locationsAlong : Location → List String → List Location
  | location, [] => [location]
  | location, name :: names =>
    if name = "." then locationsAlong location names
    else if name = ".." then locationsAlong location.dropLast names
    else location :: locationsAlong (location ++ [name]) names

/-- The locations that a path leads through, seen from the directory one is in. -/
def locations (fs : FileSystem) (path : String) : List Location :=
  locationsAlong (if Path.isAbsolute path then [] else fs.here) (Path.names path)

/-- The file system with a directory that has been found. -/
def withDirectory (fs : FileSystem) (location : Location) : FileSystem :=
  { fs with items := (location, .directory) :: fs.items }

/-- The file system with a file that has been found. -/
def withFile (fs : FileSystem) (location : Location) (bytes : Bytes) : FileSystem :=
  let added := fs.addFile location
  added.setBytes (.file fs.contents.length) bytes

/-! ### What has changed -/

/-- How a location has changed. -/
inductive Change where
  | made
  | written (bytes : Bytes)
  | appended (bytes : Bytes)
  deriving DecidableEq, Repr

/-- How a location has changed from one file system to the next. -/
def changeAt? (before after : FileSystem) (location : Location) : Option Change :=
  match after.item? location with
  | some .directory => if (before.item? location).isSome then none else some .made
  | some (.file n) =>
    let new := after.bytesOf (.file n)
    match before.bytesAt? location with
    | none => some (.written new)
    | some old =>
      if old = new then none
      else if old <+: new then some (.appended (new.drop old.length))
      else some (.written new)
  | _ => none

/-- All changes from one file system to the next, the oldest first. -/
def changes (before after : FileSystem) : List (Location × Change) :=
  after.items.reverse.filterMap fun i => (before.changeAt? after i.1).map fun c => (i.1, c)

end FileSystem

end BlockLedger
