import BlockLedger.Digest

/-!
# What can be wrong with a JSON text

A text is refused because it is not JSON (`Fault.malformed`), because it ends before the value does
(`Fault.cutShort`), or because it is JSON of another content than asked for (`Fault.content`). Of
the last kind there are the wrong types and shapes, which any reader can meet, and the demands of
single values: identifiers are not empty, payloads and digests are hexadecimal.
-/

namespace BlockLedger.Json

/-- How the content of a text differs from what was asked for. -/
inductive Mismatch where
  | wrongType (expected : String)
  | wrongValue (expected : String)
  | wrongLength (found : Nat) (expected : String)
  | missingField (key : String)
  | duplicateField (key : String)
  | unknownVariant (found : String) (known : List String)
  | emptyIdentifier
  | notHex (fault : Hex.Fault)
  | notDigest (fault : Hex.Fault)
  deriving DecidableEq, Repr

/-- Why a text cannot be read. -/
inductive Fault where
  | malformed
  | cutShort
  | content (mismatch : Mismatch)
  deriving DecidableEq, Repr

/-- A name between grave accents. -/
def named (s : String) : String :=
  "\x60" ++ s ++ "\x60"

def Mismatch.message : Mismatch → String
  | .wrongType e => "invalid type, expected " ++ e
  | .wrongValue e => "invalid value, expected " ++ e
  | .wrongLength n e => "invalid length " ++ toString n ++ ", expected " ++ e
  | .missingField k => "missing field " ++ named k
  | .duplicateField k => "duplicate field " ++ named k
  | .unknownVariant v known =>
    "unknown variant " ++ named v ++ ", expected one of " ++ ", ".intercalate (known.map named)
  | .emptyIdentifier => "block id must not be empty"
  | .notHex f => f.message
  | .notDigest f => (Digest.Fault.notHex f).message

def Fault.message : Fault → String
  | .malformed => "the text is not JSON"
  | .cutShort => "the text ends too early"
  | .content m => m.message

end BlockLedger.Json
