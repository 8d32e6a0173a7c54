import Rowcast.Text.Blank

/-!
# File paths

A path is a list of names between slashes.  Empty names, and names of a single dot, do not move;
two dots move up.  The extension of a path is what follows the last dot of its last name, unless
that dot is the first character of the name.
-/

namespace Rowcast.Path

/-- The names between the slashes that move: empty names and single dots are left out. -/
def names (path : String) : List (List Char) :=
  (path.toList.splitOn '/').filter fun name => !(name.isEmpty || name == ['.'])

/-- The text in front of the last name of a path, up to the name before it. -/
def parent (path : String) : String :=
  let isStill (name : List Char) := name.isEmpty || name == ['.']
  let front := (Text.dropEnd isStill (path.toList.splitOn '/')).dropLast
  String.ofList (['/'].intercalate (Text.dropEnd isStill front))

def isAbsolute (path : String) : Bool := path.toList.head? == some '/'

/-- The name of the file that a path leads to; a path that moves up last names no file. -/
def fileName? (path : String) : Option (List Char) :=
  match (names path).getLast? with
  | none => none
  | some name => if name = ['.', '.'] then none else some name

/-- What follows the last dot of a name that does not start it. -/
def nameExtension? (name : List Char) : Option (List Char) :=
  let ending := name.reverse.takeWhile (· != '.')
  if name.length ≤ ending.length + 1 then none else some ending.reverse

def extension? (path : String) : Option String :=
  (fileName? path).bind fun name => (nameExtension? name).map String.ofList

/-- Whether a path has the extension, in any case of its letters. -/
def hasExtension (path extension : String) : Bool :=
  match extension? path with
  | some found => Text.eqIgnoringAsciiCase found extension
  | none => false

/-- A path as seen from a folder; an absolute path stays as it is. -/
def join (folder path : String) : String :=
  if isAbsolute path then path
  else if folder = "" ∨ folder.toList.getLast? = some '/' then folder ++ path
  else folder ++ "/" ++ path

end Rowcast.Path
