import Rowcast.Record

/-!
# TOML documents as trees

A document is a tree of tables.  A table remembers how it came about, because that decides what
may still be added to it: a table with a header of its own is declared once, one that was only
implied by a longer header may still get its own, one built by dotted keys takes further dotted
keys, and one written in braces is complete.
-/

namespace Rowcast.Toml

/-- How a table came about. -/
inductive Origin where
  | header
  | implied
  | dotted
  | braces
  deriving DecidableEq

/-- A value. Of floats and points in time only their presence is kept. -/
inductive Value where
  | text (s : String)
  | integer (n : Int)
  | boolean (b : Bool)
  | other
  | array (items : List Value)
  | table (origin : Origin) (members : List (String × Value))
  | tables (rows : List (List (String × Value)))

namespace Value

def text? : Value → Option String
  | text s => some s
  | _ => none

def boolean? : Value → Option Bool
  | boolean b => some b
  | _ => none

/-- An integer that fits sixty-four bits without a sign. -/
def natural? : Value → Option Nat
  | integer n => if 0 ≤ n ∧ n < UInt64.size then some n.toNat else none
  | _ => none

end Value

abbrev Members := List (String × Value)

/-- Adds a member under a dotted key, with the tables on the way that are missing. -/
def assign (value : Value) : List String → Members → Option Members
  | [], _ => none
  | [key], members =>
    match members.lookup key with
    | none => some (members ++ [(key, value)])
    | some _ => none
  | key :: path@(_ :: _), members =>
    match members.lookup key with
    | none => (assign value path []).map fun inner => members ++ [(key, .table .dotted inner)]
    | some (.table .dotted inner) =>
      (assign value path inner).map fun inner => setField key (.table .dotted inner) members
    | some _ => none

/-- What a header adds at the end of its path. -/
inductive Header where
  /-- A table of that name. -/
  | single
  /-- A further table of a list of that name. -/
  | repeated

def Header.declareLast (header : Header) (key : String) (members : Members) : Option Members :=
  match header, members.lookup key with
  | .single, none => some (members ++ [(key, .table .header [])])
  | .single, some (.table .implied inner) => some (setField key (.table .header inner) members)
  | .repeated, none => some (members ++ [(key, .tables [[]])])
  | .repeated, some (.tables rows) => some (setField key (.tables (rows ++ [[]])) members)
  | _, some _ => none

/-- Declares the table of a header, with the tables on the way that are missing. -/
def Header.declare (header : Header) : List String → Members → Option Members
  | [], _ => none
  | [key], members => header.declareLast key members
  | key :: path@(_ :: _), members =>
    match members.lookup key with
    | none =>
      (header.declare path []).map fun inner => members ++ [(key, .table .implied inner)]
    | some (.table .braces _) => none
    | some (.table origin inner) =>
      (header.declare path inner).map fun inner => setField key (.table origin inner) members
    | some (.tables rows) =>
      match rows.getLast? with
      | none => none
      | some row =>
        (header.declare path row).map fun row =>
          setField key (.tables (rows.dropLast ++ [row])) members
    | some _ => none

/-- Changes the table at the end of a path of declared tables. -/
def within (change : Members → Option Members) : List String → Members → Option Members
  | [], members => change members
  | key :: path, members =>
    match members.lookup key with
    | some (.table origin inner) =>
      (within change path inner).map fun inner => setField key (.table origin inner) members
    | some (.tables rows) =>
      match rows.getLast? with
      | none => none
      | some row =>
        (within change path row).map fun row =>
          setField key (.tables (rows.dropLast ++ [row])) members
    | _ => none

end Rowcast.Toml
