import Rowcast.Column.Spec
import Rowcast.Text.Blank

/-!
# Column definitions

A definition lists parts separated by commas, each of the form `key[:alias][@kind]` with blank
space allowed around all three.  A part may hold further separators: the key ends at the first,
the alias is what follows the first colon up to the next separator, and the kind is what follows
the last at-sign.  A part without a key counts for nothing, and of several parts with one key the
last counts.  A blank definition selects nothing and means that records pass unchanged.
-/

namespace Rowcast.Column

/-- Ends a key or an alias. -/
def isSeparator (c : Char) : Bool := c == ':' || c == '@'

def uptoSeparator (s : List Char) : List Char := s.takeWhile fun c => !isSeparator c

/-- What follows the first colon, up to the next separator. -/
def aliasOf? (part : List Char) : Option (List Char) :=
  match part.dropWhile (· != ':') with
  | [] => none
  | _ :: rest => some (uptoSeparator rest)

/-- What follows the last at-sign. -/
def kindToken? (part : List Char) : Option (List Char) :=
  if '@' ∈ part then some (part.reverse.takeWhile (· != '@')).reverse else none

/-- A piece of a definition without the blank space around it. -/
def piece (s : List Char) : String := String.ofList (Text.strip Text.isBlank s)

/-- Reads one part; `none` when it has no key. -/
def Spec.ofPart? (part : List Char) : Option Spec :=
  let key := piece (uptoSeparator part)
  if key = "" then none
  else
    some (.ofAlias key ((aliasOf? part).map piece)
      (((kindToken? part).map fun token => Kind.ofToken (piece token)).getD .text))

/-- The specifications of the parts that have a key, later parts in place of earlier ones. -/
def SpecSet.ofParts (parts : List (List Char)) : SpecSet :=
  .ofList ((parts.filterMap Spec.ofPart?).map fun spec => (spec.source, spec))

/-- Reads a definition; `none` when it is blank and records pass unchanged. -/
def SpecSet.ofDefinition? (definition : String) : Option SpecSet :=
  if Text.isAllBlank definition then none
  else some (.ofParts (definition.toList.splitOn ','))

end Rowcast.Column
