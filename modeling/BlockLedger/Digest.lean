import BlockLedger.Hex
import BlockLedger.Sha256

/-!
# Digests

A digest is 32 bytes. Payloads and pairs of digests are hashed behind different tags
(`Digest.payloadInput`, `Digest.pairInput`), so that no payload can stand for an inner node of a
tree. The inputs start with different letters, and since digests have one length the two halves of a
pair can be told apart (`Digest.pairInput_inj`): two different things are hashed to the same digest
only if SHA-256 maps two different byte strings to one.

In texts a digest is 64 hexadecimal digits. `Digest.parse` reads either case and checks the length
in bytes first.
-/

namespace BlockLedger

/-- **A digest**: 32 bytes. -/
structure Digest where
  bytes : Bytes
  length_bytes : bytes.length = 32
  deriving DecidableEq

namespace Digest

theorem ext {a b : Digest} (h : a.bytes = b.bytes) : a = b := by
  cases a; cases b; cases h; rfl

instance : LT Digest := ⟨fun a b => a.bytes < b.bytes⟩

instance (a b : Digest) : Decidable (a < b) :=
  inferInstanceAs (Decidable (a.bytes < b.bytes))

/-- The digest whose bytes are all zero. -/
def zero : Digest := ⟨List.replicate 32 0, by simp⟩

instance : Inhabited Digest := ⟨zero⟩

/-- The digest of a byte string. -/
def hash (b : Bytes) : Digest := ⟨Sha256.hash b, Sha256.length_hash b⟩

/-! ### What is hashed -/

/-- The byte string hashed for a payload. -/
def payloadInput (payload : Bytes) : Bytes :=
  Bytes.ofText "LEAF:" ++ payload

/-- The byte string hashed for two digests side by side. -/
def pairInput (left right : Digest) : Bytes :=
  Bytes.ofText "INTERNAL:" ++ left.bytes ++ right.bytes

/-- The digest of a payload. -/
def ofPayload (payload : Bytes) : Digest := hash (payloadInput payload)

/-- The digest of two digests, in this order. -/
def ofPair (left right : Digest) : Digest := hash (pairInput left right)

theorem payloadInput_inj {p q : Bytes} (h : payloadInput p = payloadInput q) : p = q :=
  List.append_cancel_left h

theorem pairInput_inj {a b c d : Digest} (h : pairInput a b = pairInput c d) : a = c ∧ b = d := by
  simp only [pairInput, List.append_assoc, List.append_cancel_left_eq] at h
  have := List.append_inj h (by rw [a.length_bytes, c.length_bytes])
  exact ⟨ext this.1, ext this.2⟩

theorem payloadInput_ne_pairInput (p : Bytes) (a b : Digest) : payloadInput p ≠ pairInput a b := by
  intro h
  have hp : (payloadInput p).head? = some 76 := rfl
  have hn : (pairInput a b).head? = some 73 := rfl
  rw [h, hn] at hp
  cases hp

/-! ### Text -/

/-- The 64 lowercase digits of a digest. -/
def hex (d : Digest) : String := Hex.text d.bytes

instance : ToString Digest := ⟨hex⟩

/-- How a digest is shown for inspection. -/
def inspect (d : Digest) : String := "Hash(" ++ Text.quoted d.hex ++ ")"

/-- Why a text is no digest. -/
inductive Fault where
  | wrongLength (found : Nat)
  | notHex (fault : Hex.Fault)
  deriving DecidableEq, Repr

def Fault.message : Fault → String
  | .wrongLength n => "invalid hash length: expected 64 hex characters, got " ++ toString n
  | .notHex f => "invalid hex: " ++ f.message

/-- **Reading a digest.** The text must have 64 bytes, all of them digits. -/
def parse (s : String) : Except Fault Digest :=
  let digits := Bytes.ofText s
  if digits.length = 64 then
    match Hex.decode digits with
    | .error f => .error (.notHex f)
    | .ok b => if h : b.length = 32 then .ok ⟨b, h⟩ else .error (.wrongLength digits.length)
  else .error (.wrongLength digits.length)

/-! ### Order -/

/-- The digests in ascending order of their bytes, each once. -/
def distinct (ds : List Digest) : List Digest :=
  (ds.mergeSort fun a b => !decide (b < a)).eraseReps

end Digest

end BlockLedger
