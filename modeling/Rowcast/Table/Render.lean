import Rowcast.Json.Text
import Rowcast.Table.Grid

/-!
# Tables of records

A table shows the first records of a list, numbered from zero.  Its columns are the names that
occur in these records, in the order in which they first come, and a record that lacks a name
leaves its cell empty.  Line breaks in a cell become spaces; in a name they make the title several
lines high.
-/

namespace Rowcast.Table

/-- A name that is not yet among the names seen goes to their end. -/
def addName (names : List String) (name : String) : List String :=
  if name ∈ names then names else names ++ [name]

/-- The names of all records, each once, in order of first appearance. -/
def columnNames (records : List OutputRecord) : List String :=
  (records.flatMap Record.keys).foldl addName []

def singleLine (s : String) : List Char :=
  s.toList.map fun c => if c = '\r' ∨ c = '\n' then ' ' else c

def cellOf (record : OutputRecord) (name : String) : Cell :=
  linesOf (((record.get? name).map fun value => singleLine value.display).getD [])

def gridOf (records : List OutputRecord) : Grid :=
  let names := columnNames records
  { titles := linesOf "(index)".toList :: names.map fun name => linesOf name.toList
    rows := records.zipIdx.map fun (record, index) =>
      linesOf (toString index).toList :: names.map (cellOf record) }

/-- The table of the first `maxRows` records; `none` where a name or a cell hides more columns
than it has and so has no width. -/
def render? (records : List OutputRecord) (maxRows : Nat) : Option String :=
  let grid := gridOf (records.take maxRows)
  if grid.isDrawable then
    some (String.ofList ((grid.lines.intersperse ['\n']).flatten))
  else none

end Rowcast.Table
