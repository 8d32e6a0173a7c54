import Rowcast.Csv.BlankLine
import Rowcast.Text.Blank
import Rowcast.Value

/-!
# Reading records

The first row is the header.  Every later row becomes a record that holds its fields under the
header's names: a short row lacks the last names, and fields beyond the header are dropped.  Where
blank lines count, each one becomes a record that holds an empty first field only.

Fields must be UTF-8.  The first row with a field that is not ends the reading with a `Fault` that
says where that row began; `watch` has then seen the records before it.
-/

namespace Rowcast.Csv

structure Options where
  delimiter : UInt8
  quote : UInt8
  /-- Blank lines are passed over. -/
  ignoreEmpty : Bool
  /-- Empty fields are null. -/
  emptyAsNull : Bool
  /-- Blank space around names and fields is dropped. -/
  trim : Bool
  deriving DecidableEq

namespace Options

/-- Commas and double quotes, blank lines ignored. -/
def standard : Options := ⟨44, 34, true, false, false⟩

def dialect (o : Options) : Dialect := ⟨o.delimiter, o.quote⟩

end Options

/-- A field that is not UTF-8: the number of its row, the header being row zero, the place where
the reading of that row began, the number of the field and how many of its bytes are valid. -/
structure Fault where
  row : Nat
  place : Place
  field : Nat
  validBytes : Nat
  deriving DecidableEq

def Fault.message (fault : Fault) : String :=
  "CSV parse error: record " ++ toString fault.row ++
    " (line " ++ toString fault.place.line ++
    ", field: " ++ toString fault.field ++
    ", byte: " ++ toString fault.place.byte ++
    "): invalid utf-8: invalid UTF-8 in field " ++ toString fault.field ++
    " near byte index " ++ toString fault.validBytes

/-- White space of ASCII, of which the line tabulation is no part. -/
def isAsciiBlank (b : UInt8) : Bool := b == 32 || b == 9 || b == 10 || b == 12 || b == 13

/-- Reads fields as texts, the first of them being field number `n`; on failure the number of the
field and of its valid bytes. -/
def decodeFields (n : Nat) : List Bytes → Except (Nat × Nat) (List String)
  | [] => .ok []
  | field :: rest =>
    match Utf8.decode field with
    | .error valid => .error (n, valid)
    | .ok text => (decodeFields (n + 1) rest).map (text :: ·)

/-- The texts of a row, with the fault that its number and place complete. -/
def Row.texts (row : Row) (number : Nat) (fields : List Bytes) : Except Fault (List String) :=
  (decodeFields 0 fields).mapError fun (field, valid) => ⟨number, row.start, field, valid⟩

/-- Texts with the blank space around them dropped where that is asked for. -/
def Options.trimmed (o : Options) (texts : List String) : List String :=
  if o.trim then texts.map Text.trim else texts

def Options.names (o : Options) (header : Row) : Except Fault (List String) :=
  (header.texts 0 header.fields).map o.trimmed

/-- The texts of a later row. White space of ASCII goes before the fields are read. -/
def Options.cells (o : Options) (row : Row) (number : Nat) : Except Fault (List String) :=
  (row.texts number
    (if o.trim then row.fields.map (Text.strip isAsciiBlank) else row.fields)).map o.trimmed

def Options.rawField (o : Options) (text : String) : Option String :=
  if o.emptyAsNull ∧ text = "" then none else some text

def Options.recordOf (o : Options) (names texts : List String) : RawRecord :=
  .ofList ((names.zip texts).map fun (name, text) => (name, o.rawField text))

def Options.blankRecord (o : Options) (names : List String) : RawRecord :=
  match names with
  | [] => .empty
  | name :: _ => Record.empty.set name (o.rawField "")

/-- The records read so far and what has been made of them. -/
structure Progress (σ : Type) where
  records : Array RawRecord
  watched : σ

namespace Progress

variable {σ : Type}

/-- Adds a record and shows it, with the count of records so far. -/
def push (watch : σ → Nat → RawRecord → σ) (p : Progress σ) (record : RawRecord) : Progress σ :=
  ⟨p.records.push record, watch p.watched (p.records.size + 1) record⟩

def pushAll (watch : σ → Nat → RawRecord → σ) (record : RawRecord) :
    Nat → Progress σ → Progress σ
  | 0, p => p
  | n + 1, p => pushAll watch record n (p.push watch record)

end Progress

structure Session (σ : Type) where
  options : Options
  names : List String
  watch : σ → Nat → RawRecord → σ

namespace Session

variable {σ : Type}

/-- Adds the records of the blank lines after the row that stopped here. -/
def pushBlanks (s : Session σ) (here : Cursor) (p : Progress σ) : Progress σ :=
  if s.options.ignoreEmpty then p
  else p.pushAll s.watch (s.options.blankRecord s.names) here.blankLines

/-- Reads the rows from number `number` on, the row before them having stopped here. Blank lines
are added when the row after them has been read, and the last ones at the end. -/
def readRows (s : Session σ) (number : Nat) (here : Cursor) (p : Progress σ) :
    List Row → Progress σ × Option Fault
  | [] => (if s.names.isEmpty then p else s.pushBlanks here p, none)
  | row :: rows =>
    match s.options.cells row number with
    | .error fault => (p, some fault)
    | .ok texts =>
      let p := (s.pushBlanks here p).push s.watch (s.options.recordOf s.names texts)
      s.readRows (number + 1) (here.moveTo row.stop.byte) p rows

end Session

/-- Reads delimited text. `watch` is shown each record as it is added, with the count so far; what
it makes of them is returned also where the reading fails. -/
def readWatched {σ : Type} (watch : σ → Nat → RawRecord → σ) (watched : σ) (o : Options)
    (bytes : Bytes) : σ × Except Fault (List RawRecord) :=
  match scan o.dialect bytes with
  | [] => (watched, .ok [])
  | header :: rows =>
    match o.names header with
    | .error fault => (watched, .error fault)
    | .ok names =>
      let here := (Cursor.front bytes).moveTo header.stop.byte
      match Session.readRows ⟨o, names, watch⟩ 1 here ⟨#[], watched⟩ rows with
      | (p, some fault) => (p.watched, .error fault)
      | (p, none) => (p.watched, .ok p.records.toList)

def read (o : Options) (bytes : Bytes) : Except Fault (List RawRecord) :=
  (readWatched (fun _ _ _ => ()) () o bytes).2

end Rowcast.Csv
