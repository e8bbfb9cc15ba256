import BlockLedger.Files.Fault
import BlockLedger.Files.Path

/-!
# Files

A file system is a value: the items that stand at each location, the contents of the files, and the
directory one is in. A file keeps its number for life, so that who has it open still holds it when
its name is gone.

What is done to files may fail half-way, and what befalls the next attempts is part of the value
(`Mishap`): attempts to append (`nextMishap`), to write a file anew (`attemptWrite`), to make
directories (`attemptDirectories`) and to open a file of which an end is to be cut off. A statement
about all file systems that is made of these is also one about all their failures; when the list has
run out, all goes well. The plain operations, such as `write` and `makeDirectories`, are what is
done when nothing befalls it. Looking things up and reading changes nothing, and fails for no
reasons but those that lie in the files. The device at `/dev/full` never has room.
-/

namespace BlockLedger

/-- A place among the files: the names on the way from the root. -/
abbrev Location := List String

/-- What can stand at a location. -/
inductive Item where
  | directory
  | file (number : Nat)
  | full
  deriving DecidableEq, Repr

/-- How far taking back what has failed gets: all is as it was, the file is cut but this is not
known to have reached the disk, or nothing happens. -/
inductive Undo where
  | done
  | unsettled
  | failed
  deriving DecidableEq, Repr

/-- A failure: how many bytes reach the file, why no more, and how far taking them back gets. -/
structure Mishap where
  written : Nat
  cause : FileFault
  undo : Undo
  deriving DecidableEq, Repr

/-- **A file system.** -/
structure FileSystem where
  items : List (Location × Item)
  contents : List Bytes
  here : Location
  mishaps : List (Option Mishap)
  deriving DecidableEq

/-- What an open file refers to. -/
inductive Handle where
  | file (number : Nat)
  | full
  deriving DecidableEq, Repr

namespace FileSystem

variable (fs : FileSystem)

/-- An empty working directory and the device that is always full. -/
def fresh : FileSystem where
  items := [
    (["work"], .directory),
    (["dev"], .directory),
    (["dev", "full"], .full)]
  contents := []
  here := ["work"]
  mishaps := []

/-! ### Looking things up -/

/-- What stands at a location. The root is a directory. -/
def item? (location : Location) : Option Item :=
  if location = [] then some .directory else fs.items.lookup location

/-- What a path leads to: an item, or a free name in a directory. -/
inductive Target where
  | item (location : Location) (item : Item)
  | vacant (location : Location)
  deriving DecidableEq, Repr

/-- The most bytes a name may have. -/
def longestName : Nat := 255

/-- The least number of bytes for which a path is too long. -/
def tooLongPath : Nat := 4096

/-- Follows names from a location. -/
def walk (location : Location) : List String → Except FileFault Target
  | [] =>
    match fs.item? location with
    | some i => .ok (.item location i)
    | none => .error .notFound
  | name :: names =>
    match fs.item? location with
    | none => .error .notFound
    | some .directory =>
      if name = "." then walk location names
      else if name = ".." then walk location.dropLast names
      else if longestName < byteLength name then .error .nameTooLong
      else if (fs.item? (location ++ [name])).isSome then walk (location ++ [name]) names
      else if names = [] then .ok (.vacant (location ++ [name]))
      else .error .notFound
    | some _ => .error .notDirectory

/-- What a path leads to. -/
def resolve (path : String) : Except FileFault Target :=
  if path = "" then .error .notFound
  else if path.toList.contains '\x00' then .error .nulInName
  else if tooLongPath ≤ byteLength path then .error .nameTooLong
  else fs.walk (if Path.isAbsolute path then [] else fs.here) (Path.names path)

/-- The item at a path. Only a directory's path may end with a slash. -/
def find (path : String) : Except FileFault Item :=
  match fs.resolve path with
  | .error e => .error e
  | .ok (.vacant _) => .error .notFound
  | .ok (.item _ .directory) => .ok .directory
  | .ok (.item _ i) => if Path.endsWithSlash path then .error .notDirectory else .ok i

/-- Whether there is a file or a directory at a path. -/
def exists? (path : String) : Bool := (fs.find path).toBool

/-- Whether there is a directory at a path. -/
def isDirectory (path : String) : Bool := (fs.find path).toOption = some .directory

/-- Whether there is a file at a path; a device is none. -/
def isFile (path : String) : Bool :=
  match fs.find path with
  | .ok (.file _) => true
  | _ => false

/-! ### Contents -/

/-- The bytes of an open file. The full device has a length of zero, and so it has none; who reads
on from it finds zeros without end, which nothing here does. -/
def bytesOf : Handle → Bytes
  | .file n => fs.contents.getD n []
  | .full => []

/-- The bytes of the file at a path, as many as its length says. -/
def read (path : String) : Except FileFault Bytes :=
  match fs.find path with
  | .error e => .error e
  | .ok .directory => .error .isDirectory
  | .ok (.file n) => .ok (fs.bytesOf (.file n))
  | .ok .full => .ok (fs.bytesOf .full)

/-- The bytes of the file at a location. -/
def bytesAt? (location : Location) : Option Bytes :=
  match fs.item? location with
  | some (.file n) => some (fs.bytesOf (.file n))
  | _ => none

/-- The text of the file at a path. -/
def readText (path : String) : Except FileFault String :=
  match fs.read path with
  | .error e => .error e
  | .ok b =>
    match Bytes.text? b with
    | none => .error .notText
    | some s => .ok s

/-- Gives an open file other bytes. -/
def setBytes (handle : Handle) (bytes : Bytes) : FileSystem :=
  match handle with
  | .file n => { fs with contents := fs.contents.set n bytes }
  | .full => fs

/-- Adds an empty file. -/
def addFile (location : Location) : FileSystem :=
  { fs with
    items := (location, .file fs.contents.length) :: fs.items
    contents := fs.contents ++ [[]] }

/-- Opens the file at a path for writing; if there is none, makes an empty one. -/
def openFile (path : String) : Except FileFault (Handle × FileSystem) :=
  match fs.resolve path with
  | .error e => .error e
  | .ok target =>
    if Path.endsWithSlash path then .error .isDirectory
    else match target with
      | .item _ .directory => .error .isDirectory
      | .item _ (.file n) => .ok (.file n, fs)
      | .item _ .full => .ok (.full, fs)
      | .vacant location => .ok (.file fs.contents.length, fs.addFile location)

/-- Writes a file anew, when nothing befalls that. -/
def write (path : String) (bytes : Bytes) : Except FileFault FileSystem :=
  match fs.openFile path with
  | .error e => .error e
  | .ok (.full, opened) => if bytes = [] then .ok opened else .error .noSpace
  | .ok (handle, opened) => .ok (opened.setBytes handle bytes)

/-! ### Names -/

/-- Makes a directory. -/
def makeDirectory (path : String) : Except FileFault FileSystem :=
  match fs.resolve path with
  | .error e => .error e
  | .ok (.item _ _) => .error .exists
  | .ok (.vacant location) => .ok { fs with items := (location, .directory) :: fs.items }

/-- Takes a file's name away. -/
def remove (path : String) : Except FileFault FileSystem :=
  match fs.resolve path with
  | .error e => .error e
  | .ok (.vacant _) => .error .notFound
  | .ok (.item _ .directory) => .error .isDirectory
  | .ok (.item location _) =>
    if Path.endsWithSlash path then .error .notDirectory
    else .ok { fs with items := fs.items.filter (·.1 ≠ location) }

/-- Makes the first of the given directories, each of which lies in the next one, and before it as
many of the others as are missing. What has been made stays even when a later step fails. -/
def makeDirectoriesAlong : FileSystem → List String → Except FileFault Unit × FileSystem
  | fs, [] => (.error .notFound, fs)
  | fs, path :: parents =>
    if path = "" then (.ok (), fs)
    else match fs.makeDirectory path with
      | .ok made => (.ok (), made)
      | .error .notFound =>
        match makeDirectoriesAlong fs parents with
        | (.error e, partly) => (.error e, partly)
        | (.ok (), above) =>
          match above.makeDirectory path with
          | .ok made => (.ok (), made)
          | .error e => (if above.isDirectory path then .ok () else .error e, above)
      | .error e => (if fs.isDirectory path then .ok () else .error e, fs)

/-- A path and the directories it lies in, from the inside out, at most `n` of them. -/
def ancestors : Nat → String → List String
  | 0, _ => []
  | n + 1, path =>
    path :: match Path.parent? path with
      | none => []
      | some parent => ancestors n parent

/-- **Makes a directory** with all directories it lies in, when nothing befalls that. -/
def makeDirectories (path : String) : Except FileFault Unit × FileSystem :=
  fs.makeDirectoriesAlong (ancestors (path.length + 1) path)

/-! ### Attempts -/

/-- What befalls the next attempt, and the file system with that behind it. -/
def takeMishap : Option Mishap × FileSystem :=
  match fs.mishaps with
  | [] => (none, fs)
  | m :: ms => (m, { fs with mishaps := ms })

/-- Makes a directory with all directories it lies in, and with what befalls that. By then some of
these may have been made, from the outside in. Nothing is missed about a directory that is there. -/
def makeDirectoriesWith (mishap : Option Mishap) (path : String) :
    Except FileFault Unit × FileSystem :=
  match mishap with
  | none => fs.makeDirectories path
  | some m =>
    if fs.isDirectory path then (.ok (), fs)
    else
      let parents := (ancestors (path.length + 1) path).tail
      (.error m.cause, (fs.makeDirectoriesAlong (parents.drop (parents.length - m.written))).2)

/-- **An attempt to make a directory** with all directories it lies in. For the empty path there is
nothing to be done. -/
def attemptDirectories (path : String) : Except FileFault Unit × FileSystem :=
  if path = "" then (.ok (), fs) else fs.takeMishap.2.makeDirectoriesWith fs.takeMishap.1 path

/-- **An attempt to write a file anew.** It may fail before the file is opened, and then all is as
it was. Once the file is open its old bytes are gone, and if not all new ones reach it, the first of
them are in it. -/
def attemptWrite (path : String) (bytes : Bytes) : Except FileFault Unit × FileSystem :=
  match fs.takeMishap with
  | (none, fs) =>
    match fs.write path bytes with
    | .error e => (.error e, fs)
    | .ok written => (.ok (), written)
  | (some m, fs) =>
    match fs.write path (bytes.take m.written) with
    | .error e => (.error e, fs)
    | .ok written =>
      if m.undo = .done then (.error m.cause, fs)
      else if m.written < bytes.length then (.error m.cause, written)
      else (.ok (), written)

/-! ### Appending -/

/-- What befalls the next append of so many bytes, and the file system with that behind it. -/
def nextMishap (handle : Handle) (size : Nat) : Option Mishap × FileSystem :=
  match handle with
  | .full => (some ⟨0, if size = 0 then .invalidArgument else .noSpace, .failed⟩, fs)
  | .file _ => fs.takeMishap

/-- Puts bytes at the end of an open file. -/
def extend (handle : Handle) (bytes : Bytes) : FileSystem :=
  fs.setBytes handle (fs.bytesOf handle ++ bytes)

/-- Makes an open file so long, cutting it or filling it up with zeros. -/
def resize (handle : Handle) (size : Nat) : FileSystem :=
  let bytes := fs.bytesOf handle
  fs.setBytes handle (bytes.take size ++ List.replicate (size - bytes.length) 0)

end FileSystem

end BlockLedger
