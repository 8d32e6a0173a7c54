import Rowcast.Settings.Environment

/-!
# Lines for a terminal

A line is a list of parts, each plain or in a colour.  Where colours are wanted a coloured part is
put between the sequences that switch its colour on and off; a switch-off inside the part is
followed by its colour again.  Where they are not wanted only the texts remain.
-/

namespace Rowcast

inductive Colour where
  | red
  | green
  | yellow
  deriving DecidableEq

structure Span where
  colour : Option Colour
  text : String
  deriving DecidableEq

/-- A line without its line feed. -/
abbrev Line := List Span

namespace Console

def plain (text : String) : Span := ⟨none, text⟩

def coloured (colour : Colour) (text : String) : Span := ⟨some colour, text⟩

def switchOn : Colour → List Char
  | .red => ['\x1b', '[', '3', '1', 'm']
  | .green => ['\x1b', '[', '3', '2', 'm']
  | .yellow => ['\x1b', '[', '3', '3', 'm']

/-- The sequence that switches all colours off. -/
def switchOff : List Char := ['\x1b', '[', '0', 'm']

/-- Puts a sequence behind each switch-off in a text. -/
def resume (sequence : List Char) : List Char → List Char
  | '\x1b' :: '[' :: '0' :: 'm' :: rest => switchOff ++ sequence ++ resume sequence rest
  | c :: rest => c :: resume sequence rest
  | [] => []

def spanText (colours : Bool) (span : Span) : List Char :=
  match span.colour with
  | some colour =>
    if colours then
      switchOn colour ++ resume (switchOn colour) span.text.toList ++ switchOff
    else span.text.toList
  | none => span.text.toList

def lineText (colours : Bool) (line : Line) : String :=
  String.ofList (line.flatMap (spanText colours) ++ ['\n'])

def text (colours : Bool) (lines : List Line) : String := String.join (lines.map (lineText colours))

/-- Whether a variable is set to anything but zero; `none` where it is not set. -/
def switch? (environment : Environment) (name : String) : Option Bool :=
  (environment name).map (· != "0")

/-- Whether colours are wanted: they can be forced, then forbidden, and otherwise are wanted on a
terminal unless they are switched off. -/
def wantsColours (environment : Environment) (terminal : Bool) : Bool :=
  if switch? environment "CLICOLOR_FORCE" = some true then true
  else if (environment "NO_COLOR").isSome then false
  else (switch? environment "CLICOLOR").getD true && terminal

end Console

end Rowcast
