import Rowcast.Program

/-!
# The program on a real machine

Files, variables and terminals of the machine stand in for the surroundings of the program.
-/

namespace Rowcast.Machine

/-- The program's actions; the value says whether colours are wanted. -/
abbrev Action := ReaderT Bool IO

def faultOf : IO.Error → Storage.Fault
  | .noFileOrDirectory _ _ _ => .noSuchFile
  | .inappropriateType _ 20 _ => .notDirectory
  | .inappropriateType _ 21 _ => .isDirectory
  | .alreadyExists _ _ _ => .alreadyExists
  | fault => .stated (toString fault)

/-- Turns faults of the machine into results. -/
def attempt {α : Type} (action : IO α) : IO (Except Storage.Fault α) := do
  return (← action.toBaseIO).mapError faultOf

def fetch (path : String) : IO (Except Storage.Fault Bytes) := attempt do
  return (← IO.FS.readBinFile path).toList

def save (path : String) (data : Bytes) : IO (Except Storage.Fault Unit) := attempt do
  let names := (Path.names path).dropLast.map String.ofList
  if names ≠ [] then
    let folder := String.intercalate "/" names
    IO.FS.createDirAll (if Path.isAbsolute path then "/" ++ folder else folder)
  IO.FS.writeBinFile path ⟨data.toArray⟩

instance : Shell Action where
  isFile path := fun _ => return (← fetch path) matches .ok _
  fetch path := fun _ => fetch path
  save path data := fun _ => save path data
  print line := fun colours => do (← IO.getStdout).putStr (Console.lineText colours line)
  fetchSettings path := fun _ => fetch path
  valueOf name := fun _ => IO.getEnv name
  report line := fun colours => do (← IO.getStderr).putStr (Console.lineText colours line)

def wantsColours : IO Bool := do
  let names := ["CLICOLOR_FORCE", "NO_COLOR", "CLICOLOR"]
  let values ← names.mapM fun name => IO.getEnv name
  return Console.wantsColours (fun name => ((names.zip values).lookup name).join)
    (← (← IO.getStdout).isTty)

def usage : String :=
  "Convert CSV files to JSON\n\n" ++
  "Usage: csvjson parse [OPTIONS] --input-file <FILE>\n\n" ++
  "Options:\n" ++
  "  -i, --input-file <FILE>      Input CSV file\n" ++
  "  -o, --output-file <FILE>     Output JSON file\n" ++
  "      --output-table           Show a table instead of writing a file\n" ++
  "  -c, --columns <DEFINITION>   Columns with aliases and types\n" ++
  "      --ignore-empty <BOOL>    Whether empty lines are ignored [default: true]\n" ++
  "      --delimiter <CHAR>       Field delimiter [default: ,]\n" ++
  "      --quote <CHAR>           Quote character [default: \"]\n" ++
  "      --empty-as-null          Empty fields are null\n" ++
  "      --trim                   Trim headers and fields\n" ++
  "      --max-table-rows <ROWS>  Rows of a table [default: 10]\n" ++
  "      --compact                Write JSON on a single line\n" ++
  "      --config <FILE>          TOML file with defaults for these options\n" ++
  "  -v, --verbose                Verbose output\n" ++
  "      --monitor                Log resource usage\n" ++
  "  -h, --help                   Print help\n"

def explain : CommandLine.Rejection → String
  | .help | .missingCommand => usage
  | .version => "csvjson 0.1.0\n"
  | .unknownCommand => "error: unknown command\n\n" ++ usage
  | .unknownArgument => "error: unknown argument\n\n" ++ usage
  | .missingArgument => "error: the input file is missing\n\n" ++ usage
  | .repeated => "error: an option is given twice\n\n" ++ usage
  | .unwantedValue => "error: a flag takes no value\n\n" ++ usage
  | .invalidValue => "error: a value is missing or not allowed\n\n" ++ usage
  | .malformedValue => "error: a value cannot be read\n\n" ++ usage

end Rowcast.Machine

open Rowcast in
def main (words : List String) : IO UInt32 := do
  match CommandLine.parse words with
  | .ok arguments =>
    return UInt32.ofNat (← (Program.run arguments : Machine.Action Nat) (← Machine.wantsColours))
  | .error rejection =>
    let terminal ← if rejection.exitStatus = 0 then IO.getStdout else IO.getStderr
    terminal.putStr (Machine.explain rejection)
    return UInt32.ofNat rejection.exitStatus
