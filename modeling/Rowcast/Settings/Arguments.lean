import Rowcast.Csv.Reader

/-!
# Arguments and settings

`Arguments` is what a user asks for, `Settings` what a conversion needs.  A setting that a user
leaves out may come from a settings file, and has a default where that leaves it out too.
-/

namespace Rowcast

structure Arguments where
  inputFile : String
  outputFile : Option String
  outputTable : Bool
  columns : Option String
  ignoreEmpty : Option Bool
  delimiter : Option Char
  quote : Option Char
  emptyAsNull : Bool
  trim : Bool
  maxTableRows : Option Nat
  compact : Bool
  /-- The path of the settings file. -/
  config : Option String
  verbose : Bool
  monitor : Bool
  deriving DecidableEq

def Arguments.ofInput (inputFile : String) : Arguments :=
  ⟨inputFile, none, false, none, none, none, none, false, false, none, false, none, false, false⟩

inductive Target where
  | table
  | file (path : String)
  deriving DecidableEq

structure Settings where
  inputFile : String
  target : Target
  /-- The definition of the columns; without one all columns stay as they are. -/
  columns : Option String
  csv : Csv.Options
  /-- The most records that a table shows. -/
  maxTableRows : Nat
  /-- A file has a line for each member. -/
  pretty : Bool
  deriving DecidableEq

end Rowcast
