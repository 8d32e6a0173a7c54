import Rowcast.Toml.Scalar

/-!
# Reading TOML documents

A document is a list of lines, each blank or with a header or a member; arrays and tables in
braces may spread over several lines.  Values nest, so their readers count down a bound; every
value takes a character, and the number of characters that are left is always bound enough.
-/

namespace Rowcast.Toml

def skipLines? : Nat → List Char → Option (List Char)
  | 0, s => some s
  | bound + 1, s =>
    match skipComment? (skipGap s) with
    | none => none
    | some rest =>
      match lineBreak? rest with
      | some rest => skipLines? bound rest
      | none => some rest

/-- Passes over all blank space, line breaks and comments that stand here. -/
def skipSpace? (s : List Char) : Option (List Char) := skipLines? s.length s

def path? (s : List Char) : Reading (List String) := key? s.length s

mutual

def value? : Nat → List Char → Reading Value
  | 0, _ => none
  | bound + 1, s =>
    match s with
    | [] => none
    | c :: rest =>
      if c = '"' ∨ c = apostrophe then
        (string? s).map fun (text, rest) => (.text text, rest)
      else if c = '[' then
        match skipSpace? rest with
        | none => none
        | some rest => (items? bound rest).map fun (items, rest) => (.array items, rest)
      else if c = '\x7b' then
        match skipSpace? rest with
        | none => none
        | some rest =>
          (members? bound [] rest).map fun (members, rest) => (.table .braces members, rest)
      else
        let (word, rest) := splitWord s
        (ofWord? word).map fun value => (value, rest)

def items? : Nat → List Char → Reading (List Value)
  | 0, _ => none
  | _ + 1, ']' :: rest => some ([], rest)
  | bound + 1, s =>
    match value? bound s with
    | none => none
    | some (item, rest) =>
      match skipSpace? rest with
      | some (',' :: rest) =>
        match skipSpace? rest with
        | none => none
        | some rest => (items? bound rest).map fun (items, rest) => (item :: items, rest)
      | some (']' :: rest) => some ([item], rest)
      | _ => none

/-- Reads the members of a table in braces up to its closing brace, after the members given. -/
def members? : Nat → Members → List Char → Reading Members
  | 0, _, _ => none
  | _ + 1, members, '\x7d' :: rest => some (members, rest)
  | bound + 1, members, s =>
    match path? s with
    | some (path, '=' :: rest) =>
      match value? bound (skipGap rest) with
      | none => none
      | some (value, rest) =>
        match assign value path members, skipSpace? rest with
        | some members, some (',' :: rest) =>
          match skipSpace? rest with
          | none => none
          | some rest => members? bound members rest
        | some members, some ('\x7d' :: rest) => some (members, rest)
        | _, _ => none
    | _ => none

end

/-- A line that is not blank. -/
inductive Statement where
  | header (header : Header) (path : List String)
  | member (path : List String) (value : Value)

def header? (s : List Char) : Reading Statement :=
  match s with
  | '[' :: s =>
    match path? (skipGap s) with
    | some (path, ']' :: ']' :: rest) => some (.header .repeated path, rest)
    | _ => none
  | s =>
    match path? (skipGap s) with
    | some (path, ']' :: rest) => some (.header .single path, rest)
    | _ => none

def statement? (s : List Char) : Reading Statement :=
  match s with
  | '[' :: rest => header? rest
  | s =>
    match path? s with
    | some (path, '=' :: rest) =>
      (value? rest.length (skipGap rest)).map fun (value, rest) => (.member path value, rest)
    | _ => none

/-- Passes over the end of a line: blank space, a comment and the line break. -/
def endLine? (s : List Char) : Option (List Char) :=
  match skipComment? (skipGap s) with
  | some [] => some []
  | some rest => lineBreak? rest
  | none => none

/-- The document so far: its tree, and the path of the header that members belong to. -/
structure Draft where
  root : Members
  current : List String

def Draft.add (draft : Draft) : Statement → Option Draft
  | .header header path => (header.declare path draft.root).map fun root => ⟨root, path⟩
  | .member path value =>
    (within (assign value path) draft.current draft.root).map fun root => ⟨root, draft.current⟩

def lines? : Nat → Draft → List Char → Option Members
  | 0, _, _ => none
  | bound + 1, draft, s =>
    match skipSpace? s with
    | none => none
    | some [] => some draft.root
    | some rest =>
      match statement? rest with
      | none => none
      | some (statement, rest) =>
        match draft.add statement, endLine? rest with
        | some draft, some rest => lines? bound draft rest
        | _, _ => none

def byteOrderMark : Char := Char.ofNat 0xFEFF

def document? (text : String) : Option Members :=
  let chars := text.toList
  let chars := if chars.head? = some byteOrderMark then chars.tail else chars
  lines? (chars.length + 1) ⟨[], []⟩ chars

end Rowcast.Toml
