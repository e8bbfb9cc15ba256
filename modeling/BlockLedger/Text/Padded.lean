/-!
# Padded text

A text shown in a field of a given width is first cut to the precision, if there is one, and then
filled up to the width: behind the text, before it, or on both sides with the smaller half before
it. Both numbers count characters.
-/

namespace BlockLedger.Text

/-- Where in its field a text stands. -/
inductive Alignment where
  | left
  | right
  | center
  deriving DecidableEq, Repr

/-- A field that a text is shown in. -/
structure Field where
  width : Nat
  alignment : Alignment := .left
  precision : Option Nat := none
  fill : Char := ' '
  deriving DecidableEq, Repr

/-- The fill characters before and behind a text that leaves `gap` places free. -/
def Alignment.split : Alignment → Nat → Nat × Nat
  | .left, gap => (0, gap)
  | .right, gap => (gap, 0)
  | .center, gap => (gap / 2, gap - gap / 2)

/-- The characters shown in the field. -/
def Field.layOut (f : Field) (cs : List Char) : List Char :=
  let shown := match f.precision with
    | none => cs
    | some n => cs.take n
  let (before, behind) := f.alignment.split (f.width - shown.length)
  List.replicate before f.fill ++ shown ++ List.replicate behind f.fill

/-- The text as shown in the field. -/
def Field.render (f : Field) (s : String) : String :=
  String.ofList (f.layOut s.toList)

/-- Both sides together fill the gap. -/
theorem Alignment.split_sum (a : Alignment) (gap : Nat) :
    (a.split gap).1 + (a.split gap).2 = gap := by
  cases a <;> simp [Alignment.split]
  omega

/-- Without a precision a field is at least as wide as asked, and never cuts the text. -/
theorem Field.length_layOut (f : Field) (cs : List Char) (h : f.precision = none) :
    (f.layOut cs).length = max f.width cs.length := by
  have := f.alignment.split_sum (f.width - cs.length)
  simp only [Field.layOut, h, List.length_append, List.length_replicate]
  omega

end BlockLedger.Text
