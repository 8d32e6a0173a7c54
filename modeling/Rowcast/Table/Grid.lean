import Rowcast.Text.Width

/-!
# Text grids

A grid is a row of titles above rows of cells, all of one length.  A cell may have several lines;
a row is as high as its highest cell and at least one line high, a column as wide as its widest
line.  Lines are drawn above the titles, below them and at the end.
-/

namespace Rowcast.Table

/-- The lines of a cell. -/
abbrev Cell := List (List Char)

/-- The lines of a text: it is cut at line feeds, which take a carriage return before them along.
A line feed at the end starts no further line. -/
def linesOf (s : List Char) : Cell :=
  let parts := s.splitOn '\n'
  let cut (part : List Char) := if part.getLast? = some '\r' then part.dropLast else part
  parts.dropLast.map cut ++ (parts.getLast?.toList.filter fun part => !part.isEmpty)

structure Grid where
  titles : List Cell
  rows : List (List Cell)

def cellWidth (cell : Cell) : Nat := (cell.map Text.visibleWidth).foldl max 0

def rowHeight (cells : List Cell) : Nat := (cells.map List.length).foldl max 1

/-- Widths of columns, each the greater of two. -/
def widen (widths : List Nat) (cells : List Cell) : List Nat :=
  List.zipWith max widths (cells.map cellWidth)

namespace Grid

def widths (g : Grid) : List Nat := g.rows.foldl widen (g.titles.map cellWidth)

end Grid

/-- A text with spaces after it up to a width. -/
def padded (width : Nat) (s : List Char) : List Char :=
  s ++ List.replicate (width - Text.visibleWidth s) ' '

def separator (widths : List Nat) : List Char :=
  '+' :: widths.flatMap fun width => List.replicate (width + 2) '-' ++ ['+']

/-- Line number `i` of a row of cells. -/
def rowLine (widths : List Nat) (cells : List Cell) (i : Nat) : List Char :=
  '|' :: (widths.zip cells).flatMap fun (width, cell) =>
    ' ' :: padded width (cell.getD i []) ++ [' ', '|']

def rowLines (widths : List Nat) (cells : List Cell) : List (List Char) :=
  (List.range (rowHeight cells)).map (rowLine widths cells)

namespace Grid

def lines (g : Grid) : List (List Char) :=
  let bar := separator g.widths
  bar :: rowLines g.widths g.titles ++ bar :: g.rows.flatMap (rowLines g.widths) ++ [bar]

/-- Whether every line of every cell has a width. -/
def isDrawable (g : Grid) : Bool :=
  (g.titles :: g.rows).all fun cells => cells.all fun cell => cell.all Text.hasVisibleWidth

end Grid

end Rowcast.Table
