import BlockLedger.Json.Fault

/-!
# Reading the parts of a JSON text

The parts that carry no structure: blanks, the three words, strings and numbers. Each function takes
the characters from its first one on and gives back what it read and the characters behind it.

Two ways of reading differ in what they refuse. A string whose content is wanted must spell
characters, while one that is skipped may also spell half of a surrogate pair. A number that is
wanted must lie within the range of double precision, while one that is skipped may have any size.

A number is wanted only as an integer. One with a fraction or an exponent, one that does not fit 64
bits and minus zero are of another kind (`Number.inexact`).
-/

namespace BlockLedger.Json

/-! ### Blanks and words -/

/-- The four characters that may stand between the parts of a text. -/
def isBlank (c : Char) : Bool :=
  c = ' ' || c = '\n' || c = '\t' || c = '\r'

/-- The text without the blanks in front. -/
def skipBlanks (cs : List Char) : List Char :=
  cs.dropWhile isBlank

/-- The rest of a word whose first letter has been read. -/
def word : List Char → List Char → Except Fault (List Char)
  | [], cs => .ok cs
  | _ :: _, [] => .error .cutShort
  | w :: ws, c :: cs => if c = w then word ws cs else .error .malformed

/-! ### Strings -/

/-- The character that a one-letter escape stands for. -/
def shortEscape? (c : Char) : Option Char :=
  if c = '"' then some '"'
  else if c = '\\' then some '\\'
  else if c = '/' then some '/'
  else if c = 'b' then some '\x08'
  else if c = 'f' then some '\x0c'
  else if c = 'n' then some '\n'
  else if c = 'r' then some '\r'
  else if c = 't' then some '\t'
  else none

/-- The number a hexadecimal digit of either case stands for. -/
def hexValue? (c : Char) : Option Nat :=
  if '0' ≤ c ∧ c ≤ '9' then some (c.toNat - 48)
  else if 'a' ≤ c ∧ c ≤ 'f' then some (c.toNat - 87)
  else if 'A' ≤ c ∧ c ≤ 'F' then some (c.toNat - 55)
  else none

/-- The number written by four digits. -/
def hexUnit? (a b c d : Char) : Option Nat :=
  match hexValue? a, hexValue? b, hexValue? c, hexValue? d with
  | some a, some b, some c, some d => some (4096 * a + 256 * b + 16 * c + d)
  | _, _, _, _ => none

/-- What is wrong where four digits should stand and do not: fewer than four bytes are left, or
some character is no digit. -/
def unitFault (cs : List Char) : Fault :=
  if (Bytes.ofChars (cs.take 4)).length < 4 then .cutShort else .malformed

/-- Whether the number is the first half of a surrogate pair. -/
def isHighHalf (n : Nat) : Bool := 0xD800 ≤ n && n ≤ 0xDBFF

/-- Whether the number is the second half of a surrogate pair. -/
def isLowHalf (n : Nat) : Bool := 0xDC00 ≤ n && n ≤ 0xDFFF

/-- The content of a string from behind its opening quote; `read` holds what has been read so far,
last character first. -/
def stringBody (read : List Char) : List Char → Except Fault (List Char × List Char)
  | [] => .error .cutShort
  | '"' :: rest => .ok (read.reverse, rest)
  | '\\' :: [] => .error .cutShort
  | '\\' :: 'u' :: a :: b :: c :: d :: rest =>
    match hexUnit? a b c d with
    | none => .error (unitFault (a :: b :: c :: d :: rest))
    | some n =>
      if isLowHalf n then .error .malformed
      else if isHighHalf n then
        match rest with
        | '\\' :: 'u' :: e :: f :: g :: h :: rest =>
          match hexUnit? e f g h with
          | none => .error (unitFault (e :: f :: g :: h :: rest))
          | some m =>
            if isLowHalf m then
              stringBody (Char.ofNat (0x10000 + 0x400 * (n - 0xD800) + (m - 0xDC00)) :: read) rest
            else .error .malformed
        | '\\' :: 'u' :: rest => .error (unitFault rest)
        | [] | ['\\'] => .error .cutShort
        | _ => .error .malformed
      else stringBody (Char.ofNat n :: read) rest
  | '\\' :: 'u' :: rest => .error (unitFault rest)
  | '\\' :: c :: rest =>
    match shortEscape? c with
    | none => .error .malformed
    | some c => stringBody (c :: read) rest
  | c :: rest => if c.toNat < 0x20 then .error .malformed else stringBody (c :: read) rest

/-- The text behind a string that is not wanted. -/
def skipString : List Char → Except Fault (List Char)
  | [] => .error .cutShort
  | '"' :: rest => .ok rest
  | '\\' :: [] => .error .cutShort
  | '\\' :: 'u' :: a :: b :: c :: d :: rest =>
    match hexUnit? a b c d with
    | none => .error (unitFault (a :: b :: c :: d :: rest))
    | some _ => skipString rest
  | '\\' :: 'u' :: rest => .error (unitFault rest)
  | '\\' :: c :: rest =>
    match shortEscape? c with
    | none => .error .malformed
    | some _ => skipString rest
  | c :: rest => if c.toNat < 0x20 then .error .malformed else skipString rest

/-! ### Numbers -/

/-- A number as far as it is of interest. -/
inductive Number where
  | natural (n : Nat)
  | negative (n : Nat)
  | inexact
  deriving DecidableEq, Repr

/-- Whether a character is a decimal digit. -/
def isDigit (c : Char) : Bool := '0' ≤ c && c ≤ '9'

/-- The digits in front of a text, and the text behind them. -/
def digits (cs : List Char) : List Char × List Char :=
  (cs.takeWhile isDigit, cs.dropWhile isDigit)

/-- The number that digits write. -/
def digitsValue (ds : List Char) : Nat :=
  ds.foldl (fun n d => 10 * n + (d.toNat - 48)) 0

/-- Appends digits to a number as long as it fits 64 bits; gives the number and how many digits
were taken. -/
def gather : Nat → Nat → List Char → Nat × Nat
  | n, taken, d :: ds =>
    let m := 10 * n + (d.toNat - 48)
    if m < unsignedLimit then gather m (taken + 1) ds else (n, taken)
  | n, taken, [] => (n, taken)

/-- The number rounded to 53 significant bits, a half going to the even neighbour. -/
def roundToDouble (n : Nat) : Nat :=
  let shift := Nat.log2 n - 52
  if Nat.log2 n ≤ 52 then n
  else
    let unit := 1 <<< shift
    let low := n / unit
    let rest := n % unit
    let up := 2 * rest > unit ∨ (2 * rest = unit ∧ low % 2 = 1)
    (if up then low + 1 else low) * unit

/-- Whether `n` times ten to the power `exponent` lies beyond double precision. -/
def beyondDouble (n : Nat) (exponent : Int) : Bool :=
  n ≠ 0 && (decide (308 < exponent) ||
    (decide (0 ≤ exponent) &&
      decide ((1 <<< 1024) - (1 <<< 970)
        ≤ roundToDouble n * roundToDouble (Nat.pow 10 exponent.toNat))))

/-- An inexact number, unless it is beyond double precision. -/
def inexact (n : Nat) (exponent : Int) (rest : List Char) : Except Fault (Number × List Char) :=
  if beyondDouble n exponent then .error .malformed else .ok (.inexact, rest)

/-- The exponent of a number, from behind its letter. -/
def exponentPart (n : Nat) (exponent : Int) (cs : List Char) : Except Fault (Number × List Char) :=
  let (minus, cs) := match cs with
    | '+' :: rest => (false, rest)
    | '-' :: rest => (true, rest)
    | _ => (false, cs)
  match digits cs with
  | ([], []) => .error .cutShort
  | ([], _ :: _) => .error .malformed
  | (ds, rest) =>
    let e : Int := digitsValue ds
    inexact n (if minus then exponent - e else exponent + e) rest

/-- What may follow the digits of a number with a fraction. -/
def exponentOrEnd (n : Nat) (exponent : Int) : List Char → Except Fault (Number × List Char)
  | 'e' :: rest => exponentPart n exponent rest
  | 'E' :: rest => exponentPart n exponent rest
  | rest => inexact n exponent rest

/-- The fraction of a number, from behind its point. -/
def fractionPart (n : Nat) (exponent : Int) (cs : List Char) : Except Fault (Number × List Char) :=
  match digits cs with
  | ([], []) => .error .cutShort
  | ([], _ :: _) => .error .malformed
  | (ds, rest) =>
    let (m, taken) := gather n 0 ds
    exponentOrEnd m (exponent - taken) rest

/-- The integer that the digits of a number without fraction and exponent write. -/
def integerOf (minus : Bool) (n : Nat) : Number :=
  if minus then (if 0 < n ∧ n ≤ signedLimit then .negative n else .inexact) else .natural n

/-- What follows the leading digits of a number. -/
def numberTail (minus : Bool) (ds rest : List Char) : Except Fault (Number × List Char) :=
  let (n, taken) := gather 0 0 ds
  let dropped : Int := ds.length - taken
  match rest with
  | '.' :: rest => fractionPart n dropped rest
  | 'e' :: rest => exponentPart n dropped rest
  | 'E' :: rest => exponentPart n dropped rest
  | rest => if taken = ds.length then .ok (integerOf minus n, rest) else inexact n dropped rest

/-- A number without its sign. -/
def unsignedNumber (minus : Bool) (cs : List Char) : Except Fault (Number × List Char) :=
  match digits cs with
  | ([], []) => .error .cutShort
  | ([], _ :: _) => .error .malformed
  | ('0' :: _ :: _, _) => .error .malformed
  | (ds, rest) => numberTail minus ds rest

/-- **A number.** -/
def number : List Char → Except Fault (Number × List Char)
  | '-' :: rest => unsignedNumber true rest
  | cs => unsignedNumber false cs

/-- The text behind the exponent of a number that is not wanted. -/
def skipExponent (cs : List Char) : Except Fault (List Char) :=
  let cs := match cs with
    | '+' :: rest => rest
    | '-' :: rest => rest
    | _ => cs
  match digits cs with
  | ([], _) => .error .malformed
  | (_, rest) => .ok rest

/-- The text behind a number that is not wanted. -/
def skipNumber (cs : List Char) : Except Fault (List Char) :=
  let cs := match cs with
    | '-' :: rest => rest
    | _ => cs
  match digits cs with
  | ([], _) => .error .malformed
  | ('0' :: _ :: _, _) => .error .malformed
  | (_, 'e' :: rest) => skipExponent rest
  | (_, 'E' :: rest) => skipExponent rest
  | (_, '.' :: rest) =>
    match digits rest with
    | ([], _) => .error .malformed
    | (_, 'e' :: rest) => skipExponent rest
    | (_, 'E' :: rest) => skipExponent rest
    | (_, rest) => .ok rest
  | (_, rest) => .ok rest

/-! ### Values that are not wanted -/

/-- The containers a value stands in. -/
inductive Bracket where
  | square
  | brace
  deriving DecidableEq, Repr

/-- What is expected next while a value is skipped. -/
inductive Stage where
  | value
  | key
  | opened
  | ended
  deriving DecidableEq, Repr

/-- The text behind a value that is no container, its first character being `c`. -/
def skipScalar (c : Char) (rest : List Char) : Except Fault (List Char) :=
  if c = 'n' then word ['u', 'l', 'l'] rest
  else if c = 't' then word ['r', 'u', 'e'] rest
  else if c = 'f' then word ['a', 'l', 's', 'e'] rest
  else if c = '"' then skipString rest
  else if c = '-' || isDigit c then skipNumber (c :: rest)
  else .error .malformed

/-- Skips a value of any depth, keeping the open containers in a list; the first argument bounds
the steps. -/
def skipSteps : Nat → List Bracket → Stage → List Char → Except Fault (List Char)
  | 0, _, _, _ => .error .cutShort
  | n + 1, stack, .value, cs =>
    match skipBlanks cs with
    | [] => .error .cutShort
    | '[' :: rest => skipSteps n (.square :: stack) .opened rest
    | '\x7b' :: rest => skipSteps n (.brace :: stack) .opened rest
    | c :: rest =>
      match skipScalar c rest with
      | .error f => .error f
      | .ok rest => skipSteps n stack .ended rest
  | n + 1, stack, .key, cs =>
    match skipBlanks cs with
    | [] => .error .cutShort
    | '"' :: rest =>
      match skipString rest with
      | .error f => .error f
      | .ok rest =>
        match skipBlanks rest with
        | [] => .error .cutShort
        | ':' :: rest => skipSteps n stack .value rest
        | _ :: _ => .error .malformed
    | _ :: _ => .error .malformed
  | _ + 1, [], .opened, cs => .ok cs
  | n + 1, .square :: stack, .opened, cs =>
    match skipBlanks cs with
    | [] => .error .cutShort
    | ']' :: rest => skipSteps n stack .ended rest
    | rest => skipSteps n (.square :: stack) .value rest
  | n + 1, .brace :: stack, .opened, cs =>
    match skipBlanks cs with
    | [] => .error .cutShort
    | '\x7d' :: rest => skipSteps n stack .ended rest
    | rest => skipSteps n (.brace :: stack) .key rest
  | _ + 1, [], .ended, cs => .ok cs
  | n + 1, .square :: stack, .ended, cs =>
    match skipBlanks cs with
    | [] => .error .cutShort
    | ',' :: rest => skipSteps n (.square :: stack) .value rest
    | ']' :: rest => skipSteps n stack .ended rest
    | _ :: _ => .error .malformed
  | n + 1, .brace :: stack, .ended, cs =>
    match skipBlanks cs with
    | [] => .error .cutShort
    | ',' :: rest => skipSteps n (.brace :: stack) .key rest
    | '\x7d' :: rest => skipSteps n stack .ended rest
    | _ :: _ => .error .malformed

/-- **The text behind a value that is not wanted.** No step but the first one in a container leaves
the text as it is, so twice its length bounds them. -/
def skipValue (cs : List Char) : Except Fault (List Char) :=
  skipSteps (2 * cs.length + 2) [] .value cs

end BlockLedger.Json
