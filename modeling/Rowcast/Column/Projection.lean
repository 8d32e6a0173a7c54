import Rowcast.Column.Coercion
import Rowcast.Column.Definition

/-!
# Projection

A record is projected field by field, in its own order: a field whose column is selected goes to
the output under the column's target name, and any other field is left out.  Where two selected
columns share a target the later field of the record decides the value and the earlier one the
place.  Without specifications a record passes as it is.
-/

namespace Rowcast.Column

def cell (kind : Kind) : Option String → Value
  | some raw => coerce raw kind
  | none => .null

/-- The selected fields, in the order of the record, under their target names. -/
def selected (specs : SpecSet) (record : RawRecord) : List (String × Value) :=
  record.fields.filterMap fun field =>
    (specs.get? field.1).map fun spec => (spec.target, cell spec.kind field.2)

/-- Keeps, renames and coerces the selected fields. -/
def project (specs : SpecSet) (record : RawRecord) : OutputRecord :=
  .ofList (selected specs record)

/-- Projects a record, or passes it as it is where there are no specifications. -/
def apply (specs? : Option SpecSet) (record : RawRecord) : OutputRecord :=
  match specs? with
  | some specs => project specs record
  | none => record.map Value.ofRaw

def applyAll (specs? : Option SpecSet) (records : List RawRecord) : List OutputRecord :=
  records.map (apply specs?)

/-- The specifications of an optional definition: an absent one is like a blank one. -/
def specsOf (definition? : Option String) : Option SpecSet :=
  definition?.bind SpecSet.ofDefinition?

end Rowcast.Column
