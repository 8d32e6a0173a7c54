import Rowcast.Text.Utf8

/-!
# Scanning rows

The scanner reads delimited text byte by byte.  Fields end at the delimiter and rows at a carriage
return or a line feed; a field that starts with the quote runs to the next quote that is not
doubled, and delimiters and line breaks inside it are content.  Breaks where no row has begun are
passed over, so a blank line is no row, and neither is the line feed after a carriage return.
Input that ends inside a row ends the row, open quotes included.

`Scanner.step` is the whole of it: `scan` runs it over the input and lets the end of input close
the last row.  What has been scanned is never revised, so a run over `a ++ b` is a run over `a`
followed by a run over `b`.
-/

namespace Rowcast.Csv

structure Dialect where
  delimiter : UInt8
  quote : UInt8
  deriving DecidableEq

def carriageReturn : UInt8 := 13

def lineFeed : UInt8 := 10

/-- A byte that ends a row. -/
def isBreak (b : UInt8) : Bool := b == carriageReturn || b == lineFeed

/-- Where in a row the scanner stands. -/
inductive State where
  /-- No row has begun. -/
  | outside
  /-- A field of the current row begins here. -/
  | fieldStart
  /-- Inside a field without quotes, or after the quotes of one. -/
  | bare
  /-- Inside quotes. -/
  | quoted
  /-- After a quote inside quotes: either they end here or the quote is doubled. -/
  | quoteSeen
  deriving DecidableEq

inductive Effect where
  /-- Nothing. -/
  | skip
  /-- The byte is content of the current field. -/
  | keep
  /-- The current field ends and another begins. -/
  | endField
  /-- The current field and the row end. -/
  | endRow
  deriving DecidableEq

def Dialect.atFieldStart (d : Dialect) (b : UInt8) : State × Effect :=
  if b == d.quote then (.quoted, .skip)
  else if b == d.delimiter then (.fieldStart, .endField)
  else if isBreak b then (.outside, .endRow)
  else (.bare, .keep)

def Dialect.transition (d : Dialect) (b : UInt8) : State → State × Effect
  | .outside => if isBreak b then (.outside, .skip) else d.atFieldStart b
  | .fieldStart => d.atFieldStart b
  | .bare =>
    if b == d.delimiter then (.fieldStart, .endField)
    else if isBreak b then (.outside, .endRow)
    else (.bare, .keep)
  | .quoted => if b == d.quote then (.quoteSeen, .skip) else (.quoted, .keep)
  | .quoteSeen =>
    if b == d.quote then (.quoted, .keep)
    else if b == d.delimiter then (.fieldStart, .endField)
    else if isBreak b then (.outside, .endRow)
    else (.bare, .keep)

/-- A place in the input: a line, counted from one by the line feeds before it, and an offset. -/
structure Place where
  line : Nat
  byte : Nat
  deriving DecidableEq

/-- A row: its fields, where its reading began and where it stopped. Reading begins where the row
before stopped, so what is passed over belongs to the row that follows. -/
structure Row where
  fields : List Bytes
  start : Place
  stop : Place
  deriving DecidableEq

/-- The scanner in the middle of the input; the current field and the lists have their newest
entry in front. -/
structure Scanner where
  state : State
  field : Bytes
  fields : List Bytes
  here : Place
  start : Place
  rows : List Row
  deriving DecidableEq

namespace Scanner

/-- Before the first byte, with the row to come said to start at the front of the input. -/
def atOffset (byte : Nat) : Scanner where
  state := .outside
  field := []
  fields := []
  here := ⟨1, byte⟩
  start := ⟨1, 0⟩
  rows := []

def advance (here : Place) (b : UInt8) : Place :=
  ⟨if b == lineFeed then here.line + 1 else here.line, here.byte + 1⟩

def endRow (s : Scanner) (stop : Place) : Scanner where
  state := .outside
  field := []
  fields := []
  here := stop
  start := stop
  rows := ⟨(s.field.reverse :: s.fields).reverse, s.start, stop⟩ :: s.rows

def step (d : Dialect) (s : Scanner) (b : UInt8) : Scanner :=
  let here := advance s.here b
  match d.transition b s.state with
  | (state, .skip) => { s with state, here }
  | (state, .keep) => { s with state, here, field := b :: s.field }
  | (state, .endField) => { s with state, here, field := [], fields := s.field.reverse :: s.fields }
  | (_, .endRow) => s.endRow here

/-- Closes the row that the end of input leaves open, if there is one. -/
def finish (s : Scanner) : List Row :=
  match s.state with
  | .outside => s.rows.reverse
  | _ => (s.endRow s.here).rows.reverse

def run (d : Dialect) (s : Scanner) (bytes : Bytes) : Scanner := bytes.foldl (step d) s

theorem run_append (d : Dialect) (s : Scanner) (a b : Bytes) :
    run d s (a ++ b) = run d (run d s a) b := List.foldl_append

end Scanner

def byteOrderMark : Bytes := [0xEF, 0xBB, 0xBF]

/-- The rows of the input. A byte order mark at its front is passed over. -/
def scan (d : Dialect) (bytes : Bytes) : List Row :=
  if byteOrderMark.isPrefixOf bytes then
    (Scanner.run d (.atOffset byteOrderMark.length) (bytes.drop byteOrderMark.length)).finish
  else (Scanner.run d (.atOffset 0) bytes).finish

end Rowcast.Csv
