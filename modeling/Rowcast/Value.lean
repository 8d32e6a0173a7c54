import Rowcast.Number.Binary64
import Rowcast.Record

/-!
# Cells

A raw record holds the texts of one row of the input under the names of the header, with `none`
where an empty field counts as null.  An output record holds what these texts became.
-/

namespace Rowcast

inductive Value where
  | text (s : String)
  | number (x : Binary64)
  | boolean (b : Bool)
  | null
  deriving DecidableEq

/-- One row of the input. -/
abbrev RawRecord := Record (Option String)

/-- One row of the output. -/
abbrev OutputRecord := Record Value

namespace Value

def text? : Value → Option String
  | text s => some s
  | _ => none

def number? : Value → Option Binary64
  | number x => some x
  | _ => none

def isNull : Value → Bool
  | null => true
  | _ => false

def ofRaw : Option String → Value
  | some s => text s
  | none => null

end Value

end Rowcast
