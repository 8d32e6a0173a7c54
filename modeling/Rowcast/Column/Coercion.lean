import Rowcast.Column.Spec
import Rowcast.Number.Decimal
import Rowcast.Text.Blank
import Rowcast.Value

/-!
# Coercion

A text that spells a finite number, or a truth value, becomes one where its column asks for it.
Coercion never fails: any other text stays the text it was, blank space included.
-/

namespace Rowcast.Column

/-- The finite number that a text spells, blank space around it aside. The words for infinities
spell no finite number, and neither does a literal that rounds to one. -/
def finiteNumber? (raw : String) : Option Binary64 :=
  match Decimal.read? (Text.strip Text.isBlank raw.toList) with
  | some d =>
    match d.toBinary64 with
    | .finite x => some (.finite x)
    | _ => none
  | none => none

/-- The truth value that a text spells in full, the case of its letters aside. Only ASCII letters
have a lower case form that these words use. -/
def truthValue? (raw : String) : Option Bool :=
  let word := String.ofList (Text.lowerAscii raw.toList)
  if word = "true" ∨ word = "t" ∨ word = "1" then some true
  else if word = "false" ∨ word = "f" ∨ word = "0" then some false
  else none

def coerce (raw : String) : Kind → Value
  | .text => .text raw
  | .number => ((finiteNumber? raw).map Value.number).getD (.text raw)
  | .boolean => ((truthValue? raw).map Value.boolean).getD (.text raw)

end Rowcast.Column
