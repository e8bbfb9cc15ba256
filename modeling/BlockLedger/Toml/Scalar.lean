import BlockLedger.Bytes

/-!
# TOML words

Numbers, truth values and points in time are words: runs of letters, digits and a few marks
(`isWordCharacter`). An integer may have underscores between its digits, has no needless zeros in
front and fits 64 bits with a sign. A number with a fraction or an exponent must not be beyond double
precision. A point in time may be a date, a time or both, and dates follow the calendar.
-/

namespace BlockLedger.Toml

/-- Whether a character can stand in a word. -/
def isWordCharacter (c : Char) : Bool :=
  c.isAlphanum || c = '+' || c = '-' || c = '_' || c = '.' || c = ':'

/-- The digits of a number in some base, if there are any and underscores stand only between
digits. -/
def ungroup (isDigit : Char → Bool) : List Char → Option (List Char)
  | [] => none
  | [c] => if isDigit c then some [c] else none
  | c :: '_' :: rest => if isDigit c then (ungroup isDigit rest).map (c :: ·) else none
  | c :: rest => if isDigit c then (ungroup isDigit rest).map (c :: ·) else none

/-- The value of a digit of any base. -/
def digitValue (c : Char) : Nat :=
  if c.isDigit then c.toNat - 48 else if c.isLower then c.toNat - 87 else c.toNat - 55

/-- The number that digits write. -/
def valueIn (base : Nat) (ds : List Char) : Nat :=
  ds.foldl (fun n c => base * n + digitValue c) 0

/-! ### Integers -/

/-- Splits off a sign; the first component says whether it is a minus. -/
def splitSign : List Char → Bool × List Char
  | '-' :: rest => (true, rest)
  | '+' :: rest => (false, rest)
  | rest => (false, rest)

/-- The digits of a number in base ten, without a needless zero in front. -/
def decimalDigits (cs : List Char) : Option (List Char) :=
  match ungroup Char.isDigit cs with
  | some ('0' :: _ :: _) => none
  | ds => ds

/-- A number that must fit 64 bits with a sign. -/
def fitting (minus : Bool) (n : Nat) : Option Int :=
  if minus then (if n ≤ signedLimit then some (-(n : Int)) else none)
  else if n < signedLimit then some n else none

/-- A number in a base other than ten. -/
def based (base : Nat) (isDigit : Char → Bool) (cs : List Char) : Option Int := do
  fitting false (valueIn base (← ungroup isDigit cs))

/-- An integer. -/
def integer? : List Char → Option Int
  | '0' :: 'x' :: cs => based 16 (fun c => c.isDigit || 'a' ≤ c && c ≤ 'f' || 'A' ≤ c && c ≤ 'F') cs
  | '0' :: 'o' :: cs => based 8 (fun c => '0' ≤ c && c ≤ '7') cs
  | '0' :: 'b' :: cs => based 2 (fun c => c = '0' || c = '1') cs
  | cs => do
    let (minus, cs) := splitSign cs
    fitting minus (valueIn 10 (← decimalDigits cs))

/-! ### Other numbers -/

/-- The least number that rounds to something beyond double precision. -/
def beyondDouble : Nat := (1 <<< 1024) - (1 <<< 970)

/-- Whether digits with an exponent write a number beyond double precision. -/
def overflows (ds : List Char) (exponent : Int) : Bool :=
  let n := valueIn 10 ds
  let magnitude := (ds.dropWhile (· = '0')).length + exponent
  if n = 0 || magnitude < 300 then false
  else if 320 < magnitude then true
  else if 0 ≤ exponent then beyondDouble ≤ n * Nat.pow 10 exponent.toNat
  else beyondDouble * Nat.pow 10 (-exponent).toNat ≤ n

/-- The part of a word from its first letter of an exponent on. -/
def splitExponent (cs : List Char) : List Char × List Char :=
  cs.span fun c => c ≠ 'e' && c ≠ 'E'

/-- The value of an exponent with its letter; zero if there is none. -/
def exponentValue : List Char → Option Int
  | [] => some 0
  | _ :: cs => do
    let (minus, cs) := splitSign cs
    let n := valueIn 10 (← ungroup Char.isDigit cs)
    return if minus then -(n : Int) else n

/-- Whether a word is a number with a fraction, an exponent or both, within range. -/
def isDecimalFloat (cs : List Char) : Bool :=
  let (minus, cs) := splitSign cs
  let (mantissa, exponent) := splitExponent cs
  let (whole, fraction) := mantissa.span (· ≠ '.')
  match decimalDigits whole, exponentValue exponent with
  | some ds, some e =>
    match fraction with
    | [] => exponent ≠ [] && (minus || !overflows ds e)
    | _ :: fraction =>
      match ungroup Char.isDigit fraction with
      | none => false
      | some fs => minus || !overflows (ds ++ fs) (e - fs.length)
  | _, _ => false

/-- Whether a word is a number that is no integer. -/
def isFloat (cs : List Char) : Bool :=
  let unsigned := String.ofList (splitSign cs).2
  unsigned = "inf" || unsigned = "nan" || isDecimalFloat cs

/-! ### Points in time -/

/-- A number of exactly so many digits. -/
def fixedDigits (n : Nat) (cs : List Char) : Option (Nat × List Char) :=
  let ds := cs.take n
  if ds.length = n && ds.all Char.isDigit then some (valueIn 10 ds, cs.drop n) else none

/-- Takes the given character. -/
def takeCharacter (c : Char) : List Char → Option (List Char)
  | d :: rest => if d = c then some rest else none
  | [] => none

/-- The number of days of a month. -/
def daysOf (year month : Nat) : Nat :=
  if month = 2 then
    (if year % 4 = 0 && (year % 100 ≠ 0 || year % 400 = 0) then 29 else 28)
  else if month = 4 || month = 6 || month = 9 || month = 11 then 30
  else 31

/-- The text behind a date. -/
def date? (cs : List Char) : Option (List Char) := do
  let (year, cs) ← fixedDigits 4 cs
  let cs ← takeCharacter '-' cs
  let (month, cs) ← fixedDigits 2 cs
  let cs ← takeCharacter '-' cs
  let (day, cs) ← fixedDigits 2 cs
  if 1 ≤ month && month ≤ 12 && 1 ≤ day && day ≤ daysOf year month then some cs else none

/-- The text behind a time of day, which may have a fraction of a second. -/
def time? (cs : List Char) : Option (List Char) := do
  let (hour, cs) ← fixedDigits 2 cs
  let cs ← takeCharacter ':' cs
  let (minute, cs) ← fixedDigits 2 cs
  let cs ← takeCharacter ':' cs
  let (second, cs) ← fixedDigits 2 cs
  guard (hour ≤ 23 && minute ≤ 59 && second ≤ 60)
  match cs with
  | '.' :: c :: rest => if c.isDigit then some (rest.dropWhile Char.isDigit) else none
  | '.' :: [] => none
  | rest => some rest

/-- Whether a text is nothing or an offset from universal time. -/
def isOffset : List Char → Bool
  | [] => true
  | ['Z'] => true
  | ['z'] => true
  | c :: cs =>
    (c = '+' || c = '-') && ((do
      let (hour, cs) ← fixedDigits 2 cs
      let cs ← takeCharacter ':' cs
      let (minute, cs) ← fixedDigits 2 cs
      guard (hour ≤ 23 && minute ≤ 59 && cs.isEmpty)).isSome)

/-- Whether a text is a time of day with or without an offset. -/
def isTimeWithOffset (cs : List Char) : Bool := ((time? cs).map isOffset).getD false

/-- Whether a word is a point in time. -/
def isTime (cs : List Char) : Bool :=
  time? cs = some [] ||
    match date? cs with
    | none => false
    | some [] => true
    | some (c :: rest) => (c = 'T' || c = 't') && isTimeWithOffset rest

/-- Whether a word is a date alone. -/
def isDate (cs : List Char) : Bool := date? cs = some []

end BlockLedger.Toml
