/-!
# Bytes, texts and numbers of 64 bits

Payloads, files and hash inputs are byte strings: lists of bytes. A text becomes bytes by writing
each character in UTF-8 (`Bytes.ofText`), and bytes become a text only if they are well-formed UTF-8
(`Bytes.text?`).

Numbers are natural ones throughout. Those that are read or written have 64 bits, without a sign
(`unsignedLimit`) or with one (`signedLimit`).
-/

namespace BlockLedger

/-- A byte string. -/
abbrev Bytes := List UInt8

namespace Bytes

/-- The UTF-8 form of a list of characters. -/
def ofChars (cs : List Char) : Bytes :=
  cs.flatMap String.utf8EncodeChar

/-- The UTF-8 form of a text. -/
def ofText (s : String) : Bytes :=
  ofChars s.toList

/-- The text with this UTF-8 form, if there is one. -/
def text? (b : Bytes) : Option String :=
  String.fromUTF8? b.toByteArray

@[simp] theorem ofChars_nil : ofChars [] = [] := rfl

@[simp] theorem ofChars_cons (c : Char) (cs : List Char) :
    ofChars (c :: cs) = String.utf8EncodeChar c ++ ofChars cs := by
  simp [ofChars]

@[simp] theorem ofChars_append (cs ds : List Char) :
    ofChars (cs ++ ds) = ofChars cs ++ ofChars ds := by
  simp [ofChars]

end Bytes

/-- The length of a text in UTF-8. -/
def byteLength (s : String) : Nat :=
  (Bytes.ofText s).length

/-- The least number that does not fit 64 bits. -/
def unsignedLimit : Nat := 0x10000000000000000

/-- The least number that does not fit 64 bits when one of them is a sign. -/
def signedLimit : Nat := 0x8000000000000000

end BlockLedger
