import Rowcast.Text.Blank

/-!
# References to variables

A text refers to a variable by its name in braces after a dollar sign.  The first dollar sign that
is followed by an opening brace, a name of at least one character and a closing brace makes a
reference; the name is all that stands before the first closing brace, and the search goes on
behind that brace.  `pieces` cuts a text at its references, and `substitute` fills in the values of
the variables that are set.  A variable that is not set leaves its reference as it stands, and a
value that is filled in is not searched again.
-/

namespace Rowcast

/-- The values of the variables that are set. -/
abbrev Environment := String → Option String

namespace Environment

def empty : Environment := fun _ => none

/-- The environment of a list of variables.  It is searched as one entry a variable, name and value
with an equals sign between them; the first entry that starts with the name and an equals sign
gives the value, so a name may reach over the equals sign of an entry. -/
def ofVariables (settings : List (String × String)) : Environment := fun name =>
  settings.findSome? fun (key, value) =>
    ((name ++ "=").toList.isPrefixOf? (key ++ "=" ++ value).toList).map String.ofList

/-- A piece of a text: one character, or a reference by its name. -/
inductive Piece where
  | char (c : Char)
  | reference (name : List Char)
  deriving DecidableEq

namespace Piece

def written : Piece → List Char
  | char c => [c]
  | reference name => '$' :: '\x7b' :: name ++ ['\x7d']

def filled (environment : Environment) : Piece → List Char
  | char c => [c]
  | reference name =>
    match environment (String.ofList name) with
    | some value => value.toList
    | none => (reference name).written

end Piece

/-- The name of the reference that a text starts with, and the text behind it. -/
def reference? : List Char → Option (List Char × List Char)
  | '$' :: '\x7b' :: s =>
    let name := s.takeWhile (· != '\x7d')
    match s.dropWhile (· != '\x7d') with
    | [] => none
    | _ :: rest => if name = [] then none else some (name, rest)
  | _ => none

theorem eq_of_reference? {s name rest : List Char} (h : reference? s = some (name, rest)) :
    s = (Piece.reference name).written ++ rest := by
  unfold reference? at h
  split at h
  · rename_i s
    dsimp only at h
    split at h
    · simp at h
    · rename_i c rest' heq
      have hc : c = '\x7d' := by
        have := List.head?_dropWhile_not (· != '\x7d') s
        simpa [heq] using this
      split at h
      · simp at h
      · simp only [Option.some.injEq, Prod.mk.injEq] at h
        obtain ⟨rfl, rfl⟩ := h
        have := List.takeWhile_append_dropWhile (p := (· != '\x7d')) (l := s)
        rw [heq, hc] at this
        simp [Piece.written, this]
  · simp at h

theorem length_reference? {s name rest : List Char} (h : reference? s = some (name, rest)) :
    rest.length < s.length := by
  rw [eq_of_reference? h]
  simp only [Piece.written, List.length_append, List.length_cons]
  omega

def pieces (s : List Char) : List Piece :=
  match _h : reference? s with
  | some (name, rest) => .reference name :: pieces rest
  | none =>
    match s with
    | [] => []
    | c :: rest => .char c :: pieces rest
termination_by s.length
decreasing_by
  · exact length_reference? (by assumption)
  · simp

/-- The pieces of a text make up the text. -/
theorem flatMap_written_pieces (s : List Char) : (pieces s).flatMap Piece.written = s := by
  fun_induction pieces s with
  | case1 s name rest h ih => rw [List.flatMap_cons, ih, ← eq_of_reference? h]
  | case2 => rfl
  | case3 c rest h ih => simp [Piece.written, ih]

/-- Fills in the values of the variables that are set. -/
def substitute (environment : Environment) (text : String) : String :=
  String.ofList ((pieces text.toList).flatMap (Piece.filled environment))

def references (text : String) : List String :=
  (pieces text.toList).filterMap fun
    | .char _ => none
    | .reference name => some (String.ofList name)

end Environment

end Rowcast
