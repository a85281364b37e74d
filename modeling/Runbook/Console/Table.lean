import Runbook.Text.Cut
import Runbook.Text.Width

/-!
# Tables

A table has a header and rows of cells. Each column is as wide as its widest line and has a blank
at either side. A cell may have several lines; the cells of a row that have fewer are filled up.
-/

set_option autoImplicit false

namespace Runbook.Console

structure Table where
  header : List String
  rows : List (List String)
  deriving DecidableEq, Repr, Inhabited

namespace Table

def cellLines (cell : String) : List String := Text.split '\n' cell

/-- The width of the widest line of a cell. -/
def cellWidth (cell : String) : Nat := ((cellLines cell).map Text.width).foldl max 0

/-- The larger ones of two lists of widths, place by place. -/
def widen (a b : List Nat) : List Nat := List.zipWith max a b

/-- The widths of the columns, without the blanks. -/
def widths (t : Table) : List Nat :=
  t.rows.foldl (fun acc row => widen acc (row.map cellWidth)) (t.header.map cellWidth)

/-- A text many times over. -/
def times (n : Nat) (s : String) : String := Text.join "" (List.replicate n s)

/-- A line between rows: its ends, what fills it, and where it meets a column. -/
def rule (left fill cross right : String) (widths : List Nat) : String :=
  left ++ Text.join cross (widths.map fun w => times (w + 2) fill) ++ right

/-- A line of a cell, filled up to the width of its column. -/
def fillUp (width : Nat) (line : String) : String :=
  " " ++ line ++ times (width - Text.width line) " " ++ " "

/-- One line of a row; cells that have no such line are blank. -/
def rowLine (widths : List Nat) (cells : List (List String)) (i : Nat) : String :=
  "│" ++ Text.join "┆" (List.zipWith (fun w lines => fillUp w ((lines[i]?).getD "")) widths cells) ++
    "│"

/-- The lines of a row. -/
def rowLines (widths : List Nat) (row : List String) : List String :=
  let cells := row.map cellLines
  (List.range ((cells.map List.length).foldl max 0)).map (rowLine widths cells)

def lines (t : Table) : List String :=
  let ws := t.widths
  [rule "┌" "─" "┬" "┐" ws] ++ rowLines ws t.header ++ [rule "╞" "═" "╪" "╡" ws] ++
    t.rows.flatMap (rowLines ws) ++ [rule "└" "─" "┴" "┘" ws]

end Table
end Runbook.Console
