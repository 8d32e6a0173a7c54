import Rowcast.Failure
import Rowcast.Path

/-!
# Checks of single settings

Each check takes the name of the option that a value is for, because the failure names it.
-/

namespace Rowcast.Check

/-- A path is more than blank space and holds no NUL. -/
def path (field path : String) : Except Failure Unit :=
  if Text.isAllBlank path then .error (.invalidValue field path .emptyPath)
  else if '\x00' ∈ path.toList then .error (.invalidValue field path .nulInPath)
  else .ok ()

def extension (path extension : String) : Except Failure Unit :=
  if Path.hasExtension path extension then .ok () else .error (.fileType path extension)

def atLeast (field : String) (least value : Nat) : Except Failure Unit :=
  if value < least then .error (.invalidValue field (toString value) (.below least)) else .ok ()

/-- The byte of a character that may stand between or around fields: one of ASCII that breaks no
line. -/
def byte (field : String) (c : Char) : Except Failure UInt8 :=
  if c.toNat < 0x80 ∧ c ≠ '\n' ∧ c ≠ '\r' then .ok (UInt8.ofNat c.toNat)
  else .error (.invalidValue field (String.singleton c) .notPlainAscii)

/-- A backslash before a `t` spells the tabulator where a character is asked for. -/
def spelled (text : String) : String := if text = "\\t" then "\t" else text

def character (field text : String) : Except Failure Char :=
  match (spelled text).toList with
  | [c] => .ok c
  | _ => .error (.invalidValue field (spelled text) .notOneCharacter)

end Rowcast.Check
