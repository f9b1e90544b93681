import Inventory.Text.Split
import Inventory.Text.Width

/-! Tables between lines with round corners. A cell may have several lines; every cell of a column
is filled up to the width of its widest line, and every cell of a row to the height of
its highest. -/
namespace Inventory.Report

open Text

/-- The lines of one cell. -/
abbrev Cell := List (List Char)

def cell (text : String) : Cell := splitAt '\n' text.toList

def Cell.width (c : Cell) : Nat := (c.map displayWidth).foldl max 0

def rowHeight (row : List Cell) : Nat := (row.map List.length).foldl max 0

/-- The widths of columns of which two rows have these widths. -/
def widest : List Nat → List Nat → List Nat
  | a :: as, b :: bs => max a b :: widest as bs
  | [], bs => bs
  | as, [] => as

def columnWidths (rows : List (List Cell)) : List Nat :=
  (rows.map fun row => row.map Cell.width).foldl widest []

def spaces (n : Nat) : String := "".pushn ' ' n

def paddedLine (width : Nat) (line : List Char) : String :=
  " " ++ String.ofList line ++ spaces (width - displayWidth line) ++ " "

/-- One line of a row. -/
def rowLine (widths : List Nat) (row : List Cell) (i : Nat) : String :=
  let parts := (row.zip widths).map fun (cell, width) => paddedLine width (cell[i]?.getD [])
  "│" ++ join "│" parts ++ "│"

def rowLines (widths : List Nat) (row : List Cell) : List String :=
  (List.range (rowHeight row)).map (rowLine widths row)

def rule (left middle right : String) (widths : List Nat) : String :=
  left ++ join middle (widths.map fun width => "".pushn '─' (width + 2)) ++ right

/-- The first row is the heading. -/
def grid (heading : List String) (rows : List (List String)) : String :=
  let heading := heading.map cell
  let rows := rows.map (·.map cell)
  let widths := columnWidths (heading :: rows)
  join "\n" <|
    [rule "╭" "┬" "╮" widths] ++ rowLines widths heading ++ [rule "├" "┼" "┤" widths] ++
    rows.flatMap (rowLines widths) ++ [rule "╰" "┴" "╯" widths]

end Inventory.Report
