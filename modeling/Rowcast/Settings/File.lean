import Rowcast.Check
import Rowcast.Settings.Environment
import Rowcast.Toml.Document

/-!
# Settings files

A settings file is a TOML document with up to three sections, none of which need be complete.
Before it is read the values of variables are filled in.  A section is a table without other keys
than its own, or an array with a value for each of these keys in order.  A document of any other
form is malformed; in one of this form the delimiter and the quote are checked to be characters of
one byte, and the number of rows to be positive.
-/

namespace Rowcast

structure FileSettings where
  delimiter : Option String
  quote : Option String
  ignoreEmpty : Option Bool
  emptyAsNull : Option Bool
  trim : Option Bool
  maxTableRows : Option Nat
  pretty : Option Bool
  definition : Option String
  deriving DecidableEq

namespace FileSettings

def empty : FileSettings := ⟨none, none, none, none, none, none, none, none⟩

/-- The values of a section by their keys. -/
def section? (keys : List String) : Option Toml.Value → Option (String → Option Toml.Value)
  | none => some fun _ => none
  | some (.table _ members) =>
    if members.all (·.1 ∈ keys) then some fun key => members.lookup key else none
  | some (.array items) =>
    if keys.length ≤ items.length then some fun key => (keys.zip items).lookup key else none
  | some _ => none

def optional? {α : Type} (read? : Toml.Value → Option α) : Option Toml.Value → Option (Option α)
  | none => some none
  | some value => (read? value).map some

def ofMembers? (members : Toml.Members) : Option FileSettings := do
  guard (members.all (·.1 ∈ ["csv", "output", "columns"]))
  let csv ← section? ["delimiter", "quote", "ignore_empty", "empty_as_null", "trim"]
    (members.lookup "csv")
  let output ← section? ["max_table_rows", "pretty"] (members.lookup "output")
  let columns ← section? ["definition"] (members.lookup "columns")
  return {
    delimiter := ← optional? Toml.Value.text? (csv "delimiter")
    quote := ← optional? Toml.Value.text? (csv "quote")
    ignoreEmpty := ← optional? Toml.Value.boolean? (csv "ignore_empty")
    emptyAsNull := ← optional? Toml.Value.boolean? (csv "empty_as_null")
    trim := ← optional? Toml.Value.boolean? (csv "trim")
    maxTableRows := ← optional? Toml.Value.natural? (output "max_table_rows")
    pretty := ← optional? Toml.Value.boolean? (output "pretty")
    definition := ← optional? Toml.Value.text? (columns "definition") }

/-- The character of a setting that a file may leave out. -/
def character (field : String) : Option String → Except Failure (Option Char)
  | none => .ok none
  | some text => (Check.character field text).map some

def delimiterCharacter (file : FileSettings) : Except Failure (Option Char) :=
  character "csv.delimiter" file.delimiter

def quoteCharacter (file : FileSettings) : Except Failure (Option Char) :=
  character "csv.quote" file.quote

/-- A character that is given takes one byte. -/
def checkByte (field : String) : Option Char → Except Failure Unit
  | none => .ok ()
  | some c => (Check.byte field c).map fun _ => ()

/-- Whether what a file says can be used at all. -/
def check (file : FileSettings) : Except Failure Unit := do
  checkByte "csv.delimiter" (← file.delimiterCharacter)
  checkByte "csv.quote" (← file.quoteCharacter)
  match file.maxTableRows with
  | none => .ok ()
  | some rows => Check.atLeast "output.max_table_rows" 1 rows

def read (environment : Environment) (text : String) : Except Failure FileSettings :=
  match (Toml.document? (environment.substitute text)).bind ofMembers? with
  | none => .error .malformedDocument
  | some file => file.check.map fun _ => file

end FileSettings

end Rowcast
