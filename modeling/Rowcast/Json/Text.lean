import Rowcast.Json.Number
import Rowcast.Value

/-!
# JSON text

Records are written in two layouts.  `compact` puts nothing between the tokens; `pretty` gives
every member and every record a line of its own, indented by two spaces a level, and writes an
empty list or record as a bare pair of brackets.  Both write the same tokens in the same order.
-/

namespace Rowcast.Json

def hexDigit (n : Nat) : Char := Nat.digitChar n

/-- A character inside a string: quotes, backslashes and control characters are escaped, the usual
ones in two characters. -/
def escape (c : Char) : List Char :=
  if c = '"' then ['\\', '"']
  else if c = '\\' then ['\\', '\\']
  else if c = '\x08' then ['\\', 'b']
  else if c = '\x0c' then ['\\', 'f']
  else if c = '\n' then ['\\', 'n']
  else if c = '\r' then ['\\', 'r']
  else if c = '\t' then ['\\', 't']
  else if c.toNat < 0x20 then
    ['\\', 'u', '0', '0', hexDigit (c.toNat / 16), hexDigit (c.toNat % 16)]
  else [c]

def stringText (s : String) : List Char := '"' :: s.toList.flatMap escape ++ ['"']

def valueText : Value → List Char
  | .text s => stringText s
  | .number x => numberText x
  | .boolean true => ['t', 'r', 'u', 'e']
  | .boolean false => ['f', 'a', 'l', 's', 'e']
  | .null => ['n', 'u', 'l', 'l']

/-- What stands between the tokens of nested containers: `space` before each item and before the
closing bracket, by depth, and `afterColon` after the colon of a member. -/
structure Layout where
  space : Nat → List Char
  afterColon : List Char

def compact : Layout := ⟨fun _ => [], []⟩

/-- A line for each item, two spaces a level. -/
def pretty : Layout := ⟨fun depth => '\n' :: List.replicate (2 * depth) ' ', [' ']⟩

def bracketed (layout : Layout) (depth : Nat) (opening closing : Char) :
    List (List Char) → List Char
  | [] => [opening, closing]
  | item :: items =>
    opening :: layout.space (depth + 1) ++ item ++
      items.flatMap (fun item => ',' :: layout.space (depth + 1) ++ item) ++
      layout.space depth ++ [closing]

def memberText (layout : Layout) (field : String × Value) : List Char :=
  stringText field.1 ++ ':' :: layout.afterColon ++ valueText field.2

/-- A record as an object, its members in the order of the record. -/
def recordChars (layout : Layout) (depth : Nat) (record : OutputRecord) : List Char :=
  bracketed layout depth '\x7b' '\x7d' (record.fields.map (memberText layout))

def recordsChars (layout : Layout) (records : List OutputRecord) : List Char :=
  bracketed layout 0 '[' ']' (records.map (recordChars layout 1))

def recordText (record : OutputRecord) : String := String.ofList (recordChars compact 0 record)

def recordsText (layout : Layout) (records : List OutputRecord) : String :=
  String.ofList (recordsChars layout records)

end Rowcast.Json

namespace Rowcast.Value

/-- How a cell shows in a table: a text as it is, null as nothing, all else as in JSON. -/
def display : Value → String
  | text s => s
  | null => ""
  | value => String.ofList (Json.valueText value)

end Rowcast.Value
