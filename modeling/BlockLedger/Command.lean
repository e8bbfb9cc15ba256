import BlockLedger.Command.Arguments
import BlockLedger.Command.Count
import BlockLedger.Files.Path
import BlockLedger.Ledger

/-!
# Commands

The commands on a node, and how a command line is read (`Invocation.parse`). In front of the command
stand the arguments that all commands share: the home directory of the node and the form of the
answer.

What is wrong behind the command is found before a value in front of it is looked at.
-/

namespace BlockLedger

/-- The form of an answer. -/
inductive Format where
  | json
  | plain
  deriving DecidableEq, Repr

/-- Where the payload of a block is to come from. -/
inductive PayloadSource where
  | nowhere
  | text (data : String)
  | file (path : String)
  deriving DecidableEq, Repr

/-- A block to be taken in. -/
structure Submission where
  id : String
  table : String
  operation : String
  metadata : List (String × String)
  payload : PayloadSource
  deriving DecidableEq, Repr

/-- **A command.** -/
inductive Command where
  | init (limit : Nat) (force : Bool)
  | submit (submission : Submission)
  | root (table : Option String)
  | prove (ids : List String) (out : Option String)
  | verify (bundle : String) (root : Option Digest)
  | diff (journal : String)
  deriving DecidableEq

/-- **A command with what all commands share.** -/
structure Invocation where
  home : String
  format : Format
  command : Command
  deriving DecidableEq

/-- What a command line is read among: the directory that homes lie in by default, and the home
directory that is set for all commands. -/
structure Surroundings where
  userHome : Option String
  nodeHome : Option String
  deriving DecidableEq, Repr

namespace Command

/-! ### Slots -/

/-- An argument that takes any text. -/
def anyText {α : Type} (label : String) (put : String → α → α) : Slot α :=
  ⟨label, false, fun s a => .ok (put s a)⟩

/-- An argument that takes an identifier. -/
def identifier {α : Type} (label : String) (many : Bool) (put : String → α → α) : Slot α :=
  ⟨label, many, fun s a =>
    if s = "" then .error (some (Json.Mismatch.message .emptyIdentifier)) else .ok (put s a)⟩

/-- A key and a value with an equals sign between them. -/
def keyValue? (s : String) : Option (String × String) :=
  let key := s.toList.takeWhile (· ≠ '=')
  match key, s.toList.dropWhile (· ≠ '=') with
  | _ :: _, _ :: value => some (String.ofList key, String.ofList value)
  | _, _ => none

/-! ### The commands -/

/-- What is to be read for a command, and what command it makes. -/
structure Verb where
  names : List String
  parse : List String → Except Halt Command

/-- Reads all words. -/
def readWords {α : Type} (shape : Shape α) (blank : α) (finish : α → Option Command)
    (words : List String) : Except Halt Command :=
  match shape.read ⟨blank, [], none, false⟩ words with
  | .error h => .error h
  | .ok (p, _) =>
    match p.settle with
    | .error h => .error h
    | .ok p =>
      match finish p.value with
      | none => .error .usage
      | some c => .ok c

/-- Setting up a node. -/
def initVerb : Verb where
  names := ["init"]
  parse := readWords
    { named := [
        ("max-proof-leaves", .slot ⟨"--max-proof-leaves <COUNT>", false, fun s d =>
          match readCount s with
          | .ok n => .ok (n, d.2)
          | .error e => .error (some e.message)⟩),
        ("force", .switch fun d => (d.1, true))] }
    (defaultProofLimit, false)
    fun d => some (.init d.1 d.2)

/-- A block to be taken in, as far as it has been read. -/
structure SubmissionDraft where
  id : Option String := none
  table : String := ""
  operation : String := ""
  metadata : List (String × String) := []
  data : Option String := none
  file : Option String := none

/-- The payload may be given as a text or as a file, but not as both. -/
def SubmissionDraft.payload? (d : SubmissionDraft) : Option PayloadSource :=
  match d.data, d.file with
  | none, none => some .nowhere
  | some s, none => some (.text s)
  | none, some path => some (.file path)
  | some _, some _ => none

/-- The block to be taken in. It must have an identifier. -/
def SubmissionDraft.finish (d : SubmissionDraft) : Option Command :=
  match d.id, d.payload? with
  | some id, some payload => some (.submit ⟨id, d.table, d.operation, d.metadata, payload⟩)
  | _, _ => none

/-- Taking in a block. -/
def submitVerb : Verb where
  names := ["submit", "put"]
  parse := readWords
    { named := [
        ("id", .slot (identifier "--id <ID>" false fun s d => { d with id := some s })),
        ("table", .slot (anyText "--table <TABLE>" fun s d => { d with table := s })),
        ("operation", .slot (anyText "--operation <OP>" fun s d => { d with operation := s })),
        ("meta", .slot ⟨"--meta <KEY=VALUE>", true, fun s d =>
          match keyValue? s with
          | some m => .ok { d with metadata := d.metadata ++ [m] }
          | none => .error (some ("expected KEY=VALUE, got " ++ Text.quoted s))⟩),
        ("data", .slot (anyText "--data <DATA>" fun s d => { d with data := some s })),
        ("file", .slot (anyText "--file <PATH>" fun s d => { d with file := some s }))] }
    ({} : SubmissionDraft)
    SubmissionDraft.finish

/-- Showing the root. -/
def rootVerb : Verb where
  names := ["root"]
  parse := readWords
    { named := [("table", .slot (anyText "--table <TABLE>" fun s _ => some s))] }
    none
    fun table => some (.root table)

/-- Making a bundle. There must be an identifier. -/
def proveVerb : Verb where
  names := ["prove"]
  parse := readWords
    { named := [("out", .slot (anyText "--out <FILE>" fun s d => (d.1, some s)))]
      positional := some (identifier "<ID>..." true fun s d => (d.1 ++ [s], d.2)) }
    ([], none)
    fun d => if d.1 = [] then none else some (.prove d.1 d.2)

/-- Checking a bundle. -/
def verifyVerb : Verb where
  names := ["verify"]
  parse := readWords
    { named := [("root", .slot ⟨"--root <HASH>", false, fun s d =>
        match Digest.parse s with
        | .ok trusted => .ok (d.1, some trusted)
        | .error e => .error (some e.message)⟩)]
      positional := some (anyText "<BUNDLE>" fun s d => (some s, d.2)) }
    (none, none)
    fun d => d.1.map fun bundle => .verify bundle d.2

/-- Comparing with another journal. -/
def diffVerb : Verb where
  names := ["diff"]
  parse := readWords
    { named := []
      positional := some (anyText "<JOURNAL>" fun s _ => some s) }
    none
    fun journal => journal.map .diff

/-- All commands. -/
def verbs : List Verb := [initVerb, submitVerb, rootVerb, proveVerb, verifyVerb, diffVerb]

/-- The word that asks for information on a command. -/
def helpWord : String := "help"

/-- All words with which a command begins. -/
def allNames : List String := helpWord :: verbs.flatMap Verb.names

end Command

/-! ### Command lines -/

namespace Invocation

open Command

/-- The home directory and the form of the answer, as far as they are given. -/
abbrev Shared := Option String × Option Format

/-- What stands in front of a command. -/
def sharedShape : Shape Shared where
  named := [
    ("home", .slot (anyText "--home <PATH>" fun s d => (some s, d.2))),
    ("output-format", .slot ⟨"--output-format <FORMAT>", false, fun s d =>
      if s = "json" then .ok (d.1, some .json)
      else if s = "plain-text" then .ok (d.1, some .plain)
      else .error none⟩)]
  questions := [("help", 'h'), ("version", 'V')]
  verbs := allNames

/-- The name of the home directory that is used where none is set. -/
def defaultHomeName : String := ".merklesync"

/-- The home directory that is used where none is given. -/
def defaultHome (s : Surroundings) : String :=
  match s.nodeHome, s.userHome with
  | some home, _ => home
  | none, none => ""
  | none, some user => if user = "" then "" else Path.join user defaultHomeName

/-- What is said to a request for information on the commands with the given names. -/
def helpOn : List String → Halt
  | [] => .information
  | [name] => if allNames.contains name then .information else .usage
  | _ => .usage

/-- The command that begins with a word. -/
def readCommand (word : String) (words : List String) : Except Halt Command :=
  if word = helpWord then .error (helpOn words)
  else match verbs.find? (·.names.contains word) with
    | none => .error .usage
    | some v => v.parse words

/-- **Reading a command line.** -/
def parse (s : Surroundings) (words : List String) : Except Halt Invocation :=
  match sharedShape.read ⟨(none, none), [], none, false⟩ words with
  | .error h => .error h
  | .ok (_, []) => .error .usage
  | .ok (p, word :: rest) =>
    match readCommand word rest with
    | .error h => .error h
    | .ok command =>
      match p.settle with
      | .error h => .error h
      | .ok p => .ok ⟨p.value.1.getD (defaultHome s), p.value.2.getD .plain, command⟩

end Invocation

end BlockLedger
