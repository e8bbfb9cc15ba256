import BlockLedger.Text.Broken

/-!
# Grids

A grid shows rows of cells under a row of headings, drawn with plain characters. A column is as wide
as its widest cell, up to `widest`; lines that are wider are broken. A cell of several lines makes
its row as high as that. Between all lines of the text that a grid is (`Grid.lines`) stands a line
break.

Cells are filled up to their column on the right, so every cell of a column takes the same number of
columns on a terminal (`columns_fitted`).
-/

namespace BlockLedger.Text

/-- **A grid of texts.** -/
structure Grid where
  headings : List String
  rows : List (List String)
  deriving DecidableEq, Repr

namespace Grid

/-! ### Cells -/

/-- No column is wider than this, and no line between rows is drawn longer. -/
def widest : Nat := 65535

/-- The lines of a cell, broken where a line is wider than `width`. -/
def cellLines (width : Nat) (s : String) : List (List Char) :=
  (pieces '\n' s.toList).flatMap (broken width)

/-- The width a cell asks for: that of its widest line. -/
def cellWidth (s : String) : Nat :=
  min widest (((pieces '\n' s.toList).map columns).foldr max 0)

/-- A line filled up to a width with blanks. -/
def fitted (width : Nat) (line : List Char) : List Char :=
  line ++ List.replicate (width - columns line) ' '

/-- A line that is not too long is fitted exactly. -/
theorem columns_fitted {width : Nat} {line : List Char} (h : columns line ≤ width) :
    columns (fitted width line) = width := by
  rw [fitted, columns_append_blanks]
  omega

/-- The width of a column with a blank on either side. -/
def spaced (width : Nat) : Nat := min widest (width + 2)

/-! ### Rows -/

/-- The widths of the columns that these rows need, at least those given. -/
def widths (least : List Nat) (rows : List (List String)) : List Nat :=
  rows.foldl (fun ws row => ws.zipWith max (row.map cellWidth)) least

/-- The lines of a cell in a column, with a blank on either side. -/
def shown (width : Nat) (cell : String) : List (List Char) :=
  (cellLines width cell).map fun line => ' ' :: fitted width line ++ [' ']

/-- One line of text across a row: the next line of each cell, if it has one. -/
def rowLine (cells : List (Nat × List (List Char))) : List Char :=
  '|' :: joined '|' (cells.map fun c => c.2.headD (List.replicate (spaced c.1) ' ')) ++ ['|']

/-- The next lines of text across a row, below those in `above`, the last of which comes first. -/
def rowLinesBelow (above : List (List Char)) :
    Nat → List (Nat × List (List Char)) → List (List Char)
  | 0, _ => above.reverse
  | n + 1, cells =>
    rowLinesBelow (rowLine cells :: above) n (cells.map fun c => (c.1, c.2.tail))

/-- The lines of a row. -/
def rowLines (ws : List Nat) (row : List String) : List (List Char) :=
  let cells := ws.zipWith (fun w cell => (w, shown w cell)) row
  rowLinesBelow [] ((cells.map fun c => c.2.length).foldr max 1) cells

/-! ### Rules -/

/-- A line between rows: what it is made of, and what stands where columns meet and at the ends. -/
def rule (ws : List Nat) (edge cross fill : Char) : List Char :=
  edge :: joined cross (ws.map fun w => List.replicate (spaced w) fill) ++ [edge]

/-- The rows with rules between them. -/
def body (ws : List Nat) : List (List String) → List (List Char)
  | [] => []
  | [row] => rowLines ws row
  | row :: rows => rowLines ws row ++ rule ws '|' '+' '-' :: body ws rows

/-! ### The text -/

/-- The lines of the grid. -/
def lines (g : Grid) : List (List Char) :=
  let ws := widths (g.headings.map cellWidth) g.rows
  rule ws '+' '+' '-' :: rowLines ws g.headings ++ rule ws '+' '=' '=' :: body ws g.rows
    ++ [rule ws '+' '+' '-']

/-- **The grid as a text.** -/
def render (g : Grid) : String := String.ofList (joined '\n' g.lines)

end Grid

end BlockLedger.Text
