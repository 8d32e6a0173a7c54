import Rowcast.Column.Projection
import Rowcast.Host
import Rowcast.Settings.Resolve
import Rowcast.Table.Render

/-!
# Conversions

A conversion reads the records of the input file, selects and converts their columns, and writes
them to a file or shows them as a table.  Each step fails before it changes anything, and only the
last one changes the store.

A failure is a result like any other, and who asked for the conversion may go on.  A crash is not:
it ends the conversion and all that was to come after it.
-/

namespace Rowcast

inductive Outcome where
  | written (path : String) (records : Nat)
  | shown (rows total : Nat)
  deriving DecidableEq

/-- Why a conversion has no outcome. -/
inductive Stop where
  | failed (failure : Failure)
  /-- A text of the table hides more columns than it has, so that the table has no width. -/
  | crashed
  deriving DecidableEq

namespace Conversion

variable {m : Type → Type} [Monad m]

/-- Lets a fault of the store end a conversion. -/
def storage {α : Type} (action : m (Except Storage.Fault α)) : ExceptT Failure m α :=
  ExceptT.mk do return (← action).mapError .storage

variable [Host m]

def extract (settings : Settings) : ExceptT Failure m (List RawRecord) := do
  if ← ExceptT.lift (Host.isFile settings.inputFile) then
    match Csv.read settings.csv (← storage (Host.fetch settings.inputFile)) with
    | .ok records => return records
    | .error fault => throw (.input fault)
  else throw (.inputNotFound settings.inputFile)

def transform (settings : Settings) (records : List RawRecord) : List OutputRecord :=
  Column.applyAll (Column.specsOf settings.columns) records

def fileText (settings : Settings) (records : List OutputRecord) : String :=
  Json.recordsText (if settings.pretty then Json.pretty else Json.compact) records

def truncationNote (rows total : Nat) : Line :=
  [Console.coloured .yellow ("Only printed " ++ toString rows ++ " of " ++ toString total)]

def showTable (settings : Settings) (records : List OutputRecord) : ExceptT Stop m Outcome := do
  let rows := min records.length settings.maxTableRows
  if rows < records.length then
    ExceptT.lift (Host.print (truncationNote settings.maxTableRows records.length))
  match Table.render? records settings.maxTableRows with
  | none => throw .crashed
  | some table =>
    ExceptT.lift (Host.print [Console.plain table])
    return .shown rows records.length

def load (settings : Settings) (records : List OutputRecord) : ExceptT Stop m Outcome := do
  match settings.target with
  | .table => showTable settings records
  | .file path =>
    ExceptT.adapt .failed (storage (Host.save path (Utf8.encode (fileText settings records))))
    return .written path records.length

def run (settings : Settings) : ExceptT Stop m Outcome := do
  let records ← ExceptT.adapt .failed (extract settings)
  ExceptT.lift (Host.print [Console.plain ("Parsed: " ++ toString records.length)])
  load settings (transform settings records)

end Conversion

end Rowcast
