import Rowcast.Record

/-!
# Column specifications

A specification selects the column of the input named `source`, names it `target` in the output
and says what its texts are meant to be.
-/

namespace Rowcast.Column

/-- What the texts of a column are meant to be. -/
inductive Kind where
  | text
  | number
  | boolean
  deriving DecidableEq

/-- The kind that a word of a definition names. An unknown word names `text`. -/
def Kind.ofToken (token : String) : Kind :=
  if token = "number" then .number
  else if token = "boolean" then .boolean
  else .text

structure Spec where
  source : String
  target : String
  kind : Kind
  deriving DecidableEq

/-- A column under its alias, or under its own name when there is no alias or an empty one. -/
def Spec.ofAlias (source : String) (alias? : Option String) (kind : Kind) : Spec :=
  match alias? with
  | none => ⟨source, source, kind⟩
  | some name => ⟨source, if name = "" then source else name, kind⟩

/-- The selected columns by the name they have in the input. -/
abbrev SpecSet := Record Spec

end Rowcast.Column
