import Rowcast.Settings.Arguments
import Rowcast.Settings.File

/-!
# From arguments to settings

An argument wins over the file, and the file over the default; a flag that either of them sets is
set.  The characters of the file are read first, also where an argument takes their place.
-/

namespace Rowcast

/-- Where the records go: a table is shown also where an output file is named. -/
def Arguments.target (arguments : Arguments) : Except Failure Target :=
  if arguments.outputTable then .ok .table
  else match arguments.outputFile with
    | some path => .ok (.file path)
    | none => .error .noTarget

namespace Settings

/-- The byte of the first character that is given, or the default. -/
def byte (field : String) (default : UInt8) (argument file : Option Char) :
    Except Failure UInt8 :=
  match argument.or file with
  | some c => Check.byte field c
  | none => .ok default

/-- What the target needs: an output file has a path that ends in `.json`. -/
def checkTarget : Target → Except Failure Unit
  | .table => .ok ()
  | .file path => do
    Check.path "output-file" path
    Check.extension path "json"

def check (settings : Settings) : Except Failure Unit := do
  Check.path "input-file" settings.inputFile
  Check.extension settings.inputFile "csv"
  checkTarget settings.target
  Check.atLeast "max-table-rows" 1 settings.maxTableRows
  if settings.csv.delimiter = settings.csv.quote then .error .sameDelimiterAndQuote
  else .ok ()

/-- The settings for arguments and a file, before they are checked. -/
def merge (arguments : Arguments) (file : FileSettings) (target : Target)
    (delimiter quote : UInt8) : Settings where
  inputFile := arguments.inputFile
  target := target
  columns := arguments.columns.or file.definition
  csv :=
    { delimiter := delimiter
      quote := quote
      ignoreEmpty :=
        (arguments.ignoreEmpty.or file.ignoreEmpty).getD Csv.Options.standard.ignoreEmpty
      emptyAsNull := arguments.emptyAsNull || file.emptyAsNull.getD false
      trim := arguments.trim || file.trim.getD false }
  maxTableRows := (arguments.maxTableRows.or file.maxTableRows).getD 10
  pretty := !arguments.compact && file.pretty.getD true

def resolve (arguments : Arguments) (file : FileSettings) : Except Failure Settings := do
  let target ← arguments.target
  let delimiter ← byte "delimiter" Csv.Options.standard.delimiter arguments.delimiter
    (← file.delimiterCharacter)
  let quote ← byte "quote" Csv.Options.standard.quote arguments.quote (← file.quoteCharacter)
  let settings := merge arguments file target delimiter quote
  settings.check
  return settings

end Settings

end Rowcast
