import Rowcast.Settings.Arguments

/-!
# The command line

The program has one command, `parse`, with flags and with parameters that take a value.  A value
stands behind an equals sign, in the short form also right behind the letter, or is the next word,
unless that starts with a dash and goes on.  A parameter takes effect when the next flag or
parameter comes or the words end; until then an unknown word is the graver fault.  Nothing may be
given twice, and only the input file must be given.
-/

namespace Rowcast.CommandLine

/-- Why a command line starts no conversion. -/
inductive Rejection where
  /-- Help is asked for. -/
  | help
  /-- The version is asked for. -/
  | version
  | missingCommand
  | unknownCommand
  | unknownArgument
  /-- The input file is not named. -/
  | missingArgument
  /-- A flag or parameter is given twice. -/
  | repeated
  /-- A flag has a value. -/
  | unwantedValue
  /-- A value is missing, or is not among those that there are. -/
  | invalidValue
  /-- A value does not have the form that it needs. -/
  | malformedValue
  deriving DecidableEq

def Rejection.exitStatus : Rejection → Nat
  | .help | .version => 0
  | _ => 2

inductive Flag where
  | outputTable
  | emptyAsNull
  | trim
  | compact
  | verbose
  | monitor
  deriving DecidableEq

inductive Parameter where
  | inputFile
  | outputFile
  | columns
  | ignoreEmpty
  | delimiter
  | quote
  | maxTableRows
  | config
  deriving DecidableEq

/-- What a name behind dashes stands for. -/
inductive Meaning where
  | flag (flag : Flag)
  | parameter (parameter : Parameter)
  | help
  deriving DecidableEq

def meaningOfName? (name : String) : Option Meaning :=
  [("input-file", .parameter .inputFile), ("output-file", .parameter .outputFile),
    ("output-table", .flag .outputTable), ("columns", .parameter .columns),
    ("ignore-empty", .parameter .ignoreEmpty), ("delimiter", .parameter .delimiter),
    ("quote", .parameter .quote), ("empty-as-null", .flag .emptyAsNull), ("trim", .flag .trim),
    ("max-table-rows", .parameter .maxTableRows), ("compact", .flag .compact),
    ("config", .parameter .config), ("verbose", .flag .verbose), ("monitor", .flag .monitor),
    ("help", Meaning.help)].lookup name

def meaningOfLetter? : Char → Option Meaning
  | 'i' => some (.parameter .inputFile)
  | 'o' => some (.parameter .outputFile)
  | 'c' => some (.parameter .columns)
  | 'v' => some (.flag .verbose)
  | 'h' => some .help
  | _ => none

inductive Word where
  /-- Two dashes alone. -/
  | separator
  | long (name : String) (value : Option String)
  | short (letters : List Char)
  | plain (text : String)
  deriving DecidableEq

/-- Two dashes lead a name, one dash letters; a dash alone is plain. -/
def Word.ofText (text : String) : Word :=
  match text.toList with
  | ['-', '-'] => .separator
  | '-' :: '-' :: rest =>
    .long (String.ofList (rest.takeWhile (· != '=')))
      ((rest.dropWhile (· != '=')).tail?.map String.ofList)
  | '-' :: letter :: rest => .short (letter :: rest)
  | _ => .plain text

/-! ### Values -/

def boolean? (text : String) : Option Bool :=
  if text = "true" then some true
  else if text = "false" then some false
  else none

def character? (text : String) : Option Char :=
  match text.toList with
  | [c] => some c
  | _ => none

/-- A number of at most sixty-four bits; a plus sign may lead its digits. -/
def natural? (text : String) : Option Nat :=
  let digits : List Char := match text.toList with
    | '+' :: rest => rest
    | digits => digits
  let value := digits.foldl (fun n c => 10 * n + (c.toNat - '0'.toNat)) 0
  if digits ≠ [] ∧ digits.all Char.isDigit ∧ value < UInt64.size then some value else none

def Flag.set : Flag → Arguments → Arguments
  | outputTable, arguments => { arguments with outputTable := true }
  | emptyAsNull, arguments => { arguments with emptyAsNull := true }
  | trim, arguments => { arguments with trim := true }
  | compact, arguments => { arguments with compact := true }
  | verbose, arguments => { arguments with verbose := true }
  | monitor, arguments => { arguments with monitor := true }

def Parameter.set (text : String) (arguments : Arguments) :
    Parameter → Except Rejection Arguments
  | inputFile => .ok { arguments with inputFile := text }
  | outputFile => .ok { arguments with outputFile := some text }
  | columns => .ok { arguments with columns := some text }
  | config => .ok { arguments with config := some text }
  | ignoreEmpty =>
    match boolean? text with
    | some b => .ok { arguments with ignoreEmpty := some b }
    | none => .error .invalidValue
  | delimiter =>
    match character? text with
    | some c => .ok { arguments with delimiter := some c }
    | none => .error .malformedValue
  | quote =>
    match character? text with
    | some c => .ok { arguments with quote := some c }
    | none => .error .malformedValue
  | maxTableRows =>
    match natural? text with
    | some n => .ok { arguments with maxTableRows := some n }
    | none => .error .malformedValue

/-! ### Reading the words of the command -/

/-- A parameter whose value may still be to come. -/
structure Pending where
  parameter : Parameter
  value : Option String

/-- What has been read: the arguments, what has been given, and what has not yet taken effect. -/
structure Draft where
  arguments : Arguments
  given : List Meaning
  pending : Option Pending

namespace Draft

def empty : Draft := ⟨.ofInput "", [], none⟩

/-- Notes that something is given, for the first time. -/
def give (draft : Draft) (meaning : Meaning) : Except Rejection Draft :=
  if meaning ∈ draft.given then .error .repeated
  else .ok { draft with given := meaning :: draft.given }

def assign (draft : Draft) (parameter : Parameter) (value : String) : Except Rejection Draft := do
  let draft ← draft.give (.parameter parameter)
  return { draft with arguments := ← parameter.set value draft.arguments }

/-- Lets a pending parameter take effect. -/
def settle (draft : Draft) : Except Rejection Draft :=
  match draft.pending with
  | none => .ok draft
  | some ⟨_, none⟩ => .error .invalidValue
  | some ⟨parameter, some value⟩ => { draft with pending := none }.assign parameter value

def addParameter (draft : Draft) (parameter : Parameter) (value? : Option String) :
    Except Rejection Draft := do
  let draft ← draft.settle
  match value? with
  | some value => draft.assign parameter value
  | none => return { draft with pending := some ⟨parameter, none⟩ }

def addFlag (draft : Draft) (flag : Flag) : Except Rejection Draft := do
  let draft ← (← draft.settle).give (.flag flag)
  return { draft with arguments := flag.set draft.arguments }

/-- Shows help instead, unless the pending parameter is at fault. -/
def askHelp (draft : Draft) : Except Rejection Draft := do
  let _ ← draft.settle
  .error .help

def addLetters : List Char → Draft → Except Rejection Draft
  | [], draft => .ok draft
  | letter :: rest, draft =>
    match meaningOfLetter? letter with
    | none => .error .unknownArgument
    | some .help => draft.askHelp
    | some (.flag flag) => do addLetters rest (← draft.addFlag flag)
    | some (.parameter parameter) =>
      match rest with
      | [] => draft.addParameter parameter none
      | '=' :: value => draft.addParameter parameter (some (String.ofList value))
      | value => draft.addParameter parameter (some (String.ofList value))

def addName (draft : Draft) (name : String) (value? : Option String) : Except Rejection Draft :=
  match meaningOfName? name, value? with
  | none, _ => .error .unknownArgument
  | some (.parameter parameter), value? => draft.addParameter parameter value?
  | some _, some _ => .error .unwantedValue
  | some (.flag flag), none => draft.addFlag flag
  | some .help, none => draft.askHelp

/-- Adds a word without dashes, which can only be the value that is still to come. -/
def addPlain (draft : Draft) (text : String) : Except Rejection Draft :=
  match draft.pending with
  | some ⟨parameter, none⟩ => .ok { draft with pending := some ⟨parameter, some text⟩ }
  | _ => .error .unknownArgument

/-- Reads words. Nothing may follow two dashes. -/
def read : List Word → Draft → Except Rejection Draft
  | [], draft => draft.settle
  | [.separator], draft => draft.settle
  | .separator :: _ :: _, _ => .error .unknownArgument
  | .long name value? :: rest, draft => do read rest (← draft.addName name value?)
  | .short letters :: rest, draft => do read rest (← addLetters letters draft)
  | .plain text :: rest, draft => do read rest (← draft.addPlain text)

end Draft

def parseArguments (words : List String) : Except Rejection Arguments := do
  let draft ← Draft.read (words.map Word.ofText) .empty
  if .parameter .inputFile ∈ draft.given then return draft.arguments
  else .error .missingArgument

/-- What a word in the place of the command asks for. -/
def rejectionOf : Word → Rejection
  | .separator => .missingCommand
  | .long "help" none => .help
  | .long "version" none => .version
  | .long "help" (some _) => .unwantedValue
  | .long "version" (some _) => .unwantedValue
  | .long _ _ => .unknownArgument
  | .short ('h' :: _) => .help
  | .short ('V' :: _) => .version
  | .short _ => .unknownArgument
  | .plain _ => .unknownCommand

/-- Reads the words of a command line, the name of the program not among them. -/
def parse : List String → Except Rejection Arguments
  | [] => .error .missingCommand
  | ["--"] => .error .missingCommand
  | "--" :: word :: _ =>
    .error (if word = "parse" ∨ word = "help" then .unknownArgument else .unknownCommand)
  | "parse" :: words => parseArguments words
  | "help" :: words =>
    .error (if words = [] ∨ words = ["parse"] ∨ words = ["help"] then .help else .unknownCommand)
  | word :: _ => .error (rejectionOf (.ofText word))

end Rowcast.CommandLine
