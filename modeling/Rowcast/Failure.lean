import Rowcast.Csv.Reader
import Rowcast.Storage.Basic

/-!
# Failures

Everything that can go wrong in a conversion, by its cause.  `message` is the technical text,
`explanation` the one for users and `suggestion` what they may do about it; `category` and
`severity` sort the causes, and the severity decides the exit status.
-/

namespace Rowcast

/-- What is wrong with the value of an option. -/
inductive Reason where
  | emptyPath
  | nulInPath
  | below (least : Nat)
  | notPlainAscii
  | notOneCharacter
  | stated (text : String)
  deriving DecidableEq

def Reason.text : Reason → String
  | .emptyPath => "Path cannot be empty"
  | .nulInPath => "Path contains null bytes"
  | .below least => "Value must be at least " ++ toString least
  | .notPlainAscii => "Must be a single ASCII character other than a line break"
  | .notOneCharacter => "Expected exactly one character"
  | .stated text => text

inductive Failure where
  /-- A field of the input is not UTF-8. -/
  | input (fault : Csv.Fault)
  /-- A file cannot be read or written. -/
  | storage (fault : Storage.Fault)
  /-- The output cannot be put into words. -/
  | serialization (text : String)
  /-- Something is wrong with the settings as a whole. -/
  | configuration (text : String)
  /-- A setting contradicts another. -/
  | invalidSetting (field text : String)
  /-- The settings file is no document of the form it must have. -/
  | malformedDocument
  /-- The value of an option is not allowed. -/
  | invalidValue (field value : String) (reason : Reason)
  /-- A path has the wrong extension. -/
  | fileType (path expected : String)
  /-- There is no input file. -/
  | inputNotFound (path : String)
  /-- Neither a file nor a table was asked for. -/
  | noTarget
  deriving DecidableEq

namespace Failure

inductive Category where
  | input
  | processing
  | output
  | configuration
  deriving DecidableEq

inductive Severity where
  | medium
  | high
  | critical
  deriving DecidableEq

def sameDelimiterAndQuote : Failure :=
  .invalidSetting "delimiter" "Delimiter and quote character must differ"

def message : Failure → String
  | .input fault => "CSV processing error: " ++ fault.message
  | .storage fault => "IO error: " ++ fault.message
  | .serialization text => "Serialization error: " ++ text
  | .configuration text => "Configuration error: " ++ text
  | .invalidSetting field text => "Configuration validation failed for '" ++ field ++ "': " ++ text
  | .malformedDocument =>
    "Configuration validation failed for 'toml_parsing': TOML parsing error: invalid document"
  | .invalidValue field value reason =>
    "Invalid value '" ++ value ++ "' for '" ++ field ++ "': " ++ reason.text
  | .fileType path expected =>
    "Invalid file type for '" ++ path ++ "' (expected ." ++ expected ++ ")"
  | .inputNotFound path => "File does not exist: " ++ path
  | .noTarget => "Either an output file or table output must be requested"

def category : Failure → Category
  | .input _ => .processing
  | .storage _ => .input
  | .serialization _ => .output
  | .fileType _ _ => .input
  | .inputNotFound _ => .input
  | _ => .configuration

def severity : Failure → Severity
  | .storage _ => .critical
  | .configuration _ | .invalidSetting _ _ | .malformedDocument | .invalidValue _ _ _
  | .noTarget => .medium
  | _ => .high

def explanation : Failure → String
  | .input fault => "Failed to parse CSV file: " ++ fault.message
  | .storage fault => "Could not access a file: " ++ fault.message
  | .serialization text => "Could not produce JSON output: " ++ text
  | .fileType path expected =>
    if expected = "csv" then "Input file type is invalid: " ++ path
    else "Output file type is invalid: " ++ path
  | .inputNotFound path => "Input file does not exist: " ++ path
  | .noTarget => "Either 'output-file' or 'output-table' arguments must be passed!"
  | failure => failure.message

def suggestion (failure : Failure) : String :=
  match failure.category with
  | .input => "Check that the input path exists and ends with .csv"
  | .configuration => "Run 'csvjson parse --help' to review the options"
  | .processing => "Check the delimiter and quote settings match the CSV file"
  | .output => "Check that the output path ends with .json and is writable"

def Severity.exitStatus : Severity → Nat
  | .medium => 2
  | .high => 1
  | .critical => 3

end Failure

end Rowcast
