import Rowcast.Path
import Rowcast.Storage.Basic

/-!
# Disks

A disk is a tree of directories and files without links, given by what stands at each location.
A location is the list of names that leads to it from the root; the root is a directory, and `home`
is the location where relative paths start.

Following a path needs a directory for each step, also for a step that does not move and for the
slash at the end of a path.  `fetch` and `isFile` look at what stands at the end of the path,
`putFile` makes or replaces a file there, and `makeDirectories` makes the directories that are
missing on a way.  `node?_put` says what any of these changes leaves alone.
-/

namespace Rowcast

inductive Node where
  | directory
  | file (data : Bytes)
  deriving DecidableEq

/-- The names from the root to a node. -/
abbrev Location := List (List Char)

structure Disk where
  entries : List (Location × Node)
  home : Location

namespace Disk

def node? (disk : Disk) : Location → Option Node
  | [] => some .directory
  | place@(_ :: _) => disk.entries.lookup place

/-- Puts a node at a location, in the place of what stood there. -/
def put (disk : Disk) (place : Location) (node : Node) : Disk :=
  { disk with entries := (place, node) :: disk.entries.filter (·.1 != place) }

@[simp] theorem home_put (disk : Disk) (place : Location) (node : Node) :
    (disk.put place node).home = disk.home := rfl

theorem lookup_filter_ne {β : Type} {a b : Location} (h : a ≠ b)
    (entries : List (Location × β)) :
    (entries.filter (·.1 != b)).lookup a = entries.lookup a := by
  induction entries with
  | nil => rfl
  | cons entry rest ih =>
    obtain ⟨c, x⟩ := entry
    by_cases hc : c = b
    · subst hc
      have : (a == c) = false := beq_false_of_ne h
      simp [List.lookup_cons, this, ih]
    · by_cases ha : a = c
      · subst ha; simp [h]
      · have : (a == c) = false := beq_false_of_ne ha
        simp [List.lookup_cons, this, hc, ih]

theorem node?_put (disk : Disk) {place : Location} (node : Node) (h : place ≠ [])
    (a : Location) :
    (disk.put place node).node? a = if a = place then some node else disk.node? a := by
  cases a with
  | nil => simp [node?, h.symm]
  | cons name rest =>
    by_cases ha : name :: rest = place
    · subst ha; simp [node?, put]
    · have : ((name :: rest) == place) = false := beq_false_of_ne ha
      simp [node?, put, List.lookup_cons, this, ha, lookup_filter_ne ha]

/-! ### Following paths -/

def isDirectory (disk : Disk) (place : Location) : Bool := disk.node? place == some .directory

/-- Fails where no directory stands. -/
def enter (disk : Disk) (place : Location) : Except Storage.Fault Unit :=
  match disk.node? place with
  | some .directory => .ok ()
  | some (.file _) => .error .notDirectory
  | none => .error .noSuchFile

def maxNameBytes : Nat := 255

/-- The location that a name leads to from a directory. -/
def move (place : Location) (name : List Char) : Except Storage.Fault Location :=
  if name = ['.'] then .ok place
  else if name = ['.', '.'] then .ok place.dropLast
  else if maxNameBytes < (String.ofList name).utf8ByteSize then .error .nameTooLong
  else .ok (place ++ [name])

def step (disk : Disk) (place : Location) (name : List Char) :
    Except Storage.Fault Location :=
  match disk.enter place with
  | .error fault => .error fault
  | .ok () => move place name

def walk (disk : Disk) : Location → List (List Char) → Except Storage.Fault Location
  | place, [] => .ok place
  | place, name :: names =>
    match disk.step place name with
    | .error fault => .error fault
    | .ok place => disk.walk place names

def start (disk : Disk) (path : String) : Location :=
  if Path.isAbsolute path then [] else disk.home

/-- The names of a path, the single dots among them. -/
def steps (path : String) : List (List Char) :=
  (path.toList.splitOn '/').filter fun name => !name.isEmpty

def endsInSlash (path : String) : Bool := path.toList.getLast? == some '/'

def maxPathBytes : Nat := 4095

/-- Fails for what is no path at all. -/
def checkPath (path : String) : Except Storage.Fault Unit :=
  if '\x00' ∈ path.toList then .error .nulInPath
  else if path = "" then .error .noSuchFile
  else if maxPathBytes < path.utf8ByteSize then .error .nameTooLong
  else .ok ()

/-- The location at the end of a path; a slash at the end is a step that does not move. -/
def locate (disk : Disk) (path : String) : Except Storage.Fault Location :=
  match checkPath path with
  | .error fault => .error fault
  | .ok () =>
    disk.walk (disk.start path) (if endsInSlash path then steps path ++ [['.']] else steps path)

/-! ### Files -/

def isFile (disk : Disk) (path : String) : Bool :=
  match disk.locate path with
  | .error _ => false
  | .ok place =>
    match disk.node? place with
    | some (.file _) => true
    | _ => false

def fetch (disk : Disk) (path : String) : Except Storage.Fault Bytes :=
  match disk.locate path with
  | .error fault => .error fault
  | .ok place =>
    match disk.node? place with
    | some (.file data) => .ok data
    | some .directory => .error .isDirectory
    | none => .error .noSuchFile

/-- The location of the file that may be written under a path, in a directory that is there. -/
def locateFile (disk : Disk) (path : String) : Except Storage.Fault Location :=
  match checkPath path with
  | .error fault => .error fault
  | .ok () =>
    match (steps path).getLast? with
    | none => .error .isDirectory
    | some name =>
      match disk.walk (disk.start path) (steps path).dropLast with
      | .error fault => .error fault
      | .ok parent =>
        match disk.enter parent with
        | .error fault => .error fault
        | .ok () =>
          if endsInSlash path ∨ name = ['.'] ∨ name = ['.', '.'] then .error .isDirectory
          else move parent name

/-- Makes the file at the end of a path, or replaces its content. -/
def putFile (disk : Disk) (path : String) (data : Bytes) : Except Storage.Fault Disk :=
  match disk.locateFile path with
  | .error fault => .error fault
  | .ok place =>
    if disk.isDirectory place then .error .isDirectory else .ok (disk.put place (.file data))

/-! ### Directories -/

/-- Makes the directory at the end of a way, in a directory that is there. -/
def makeDirectory (disk : Disk) (place : Location) (names : List (List Char)) :
    Except Storage.Fault Disk :=
  match names.getLast? with
  | none => .error .alreadyExists
  | some name =>
    match disk.walk place names.dropLast with
    | .error fault => .error fault
    | .ok parent =>
      match disk.enter parent with
      | .error fault => .error fault
      | .ok () =>
        if name = ['.', '.'] then .error .alreadyExists
        else match move parent name with
          | .error fault => .error fault
          | .ok child =>
            match disk.node? child with
            | some _ => .error .alreadyExists
            | none => .ok (disk.put child .directory)

def leadsToDirectory (disk : Disk) (place : Location) (names : List (List Char)) : Bool :=
  match disk.walk place names with
  | .error _ => false
  | .ok place => disk.isDirectory place

/-- Makes the directory at the end of a way, unless one is there. -/
def ensureDirectory (disk : Disk) (place : Location) (names : List (List Char)) :
    Except Storage.Fault Unit × Disk :=
  match disk.makeDirectory place names with
  | .ok disk => (.ok (), disk)
  | .error fault =>
    if disk.leadsToDirectory place names then (.ok (), disk) else (.error fault, disk)

/-- Makes the directory at the end of a way and those that are missing on it.  What was made stays
also where this fails in the end. -/
def makeDirectories (disk : Disk) (place : Location) (names : List (List Char)) :
    Except Storage.Fault Unit × Disk :=
  if _h : names = [] then (.ok (), disk)
  else
    match disk.makeDirectory place names with
    | .error .noSuchFile =>
      match disk.makeDirectories place names.dropLast with
      | (.ok (), disk) => disk.ensureDirectory place names
      | (.error fault, disk) => (.error fault, disk)
    | _ => disk.ensureDirectory place names
termination_by names.length
decreasing_by
  have := List.length_pos_iff.2 _h
  simp only [List.length_dropLast]
  omega

def makeParents (disk : Disk) (path : String) : Except Storage.Fault Unit × Disk :=
  let names := (Path.names path).dropLast
  if names.any fun name => '\x00' ∈ name then (.error .nulInPath, disk)
  else if maxPathBytes < (Path.parent path).utf8ByteSize then (.error .nameTooLong, disk)
  else disk.makeDirectories (disk.start path) names

/-- Makes the file at the end of a path, or replaces its content, after making the directories that
are missing on the way. -/
def save (disk : Disk) (path : String) (data : Bytes) :
    Except Storage.Fault Unit × Disk :=
  match disk.makeParents path with
  | (.error fault, disk) => (.error fault, disk)
  | (.ok (), disk) =>
    match disk.putFile path data with
    | .error fault => (.error fault, disk)
    | .ok disk => (.ok (), disk)

/-! ### Whole disks -/

/-- The disk that holds nothing but its home. -/
def ofHome (home : Location) : Disk := ((⟨[], home⟩ : Disk).makeDirectories [] home).2

/-- Adds a file, or with `none` a directory, under a path. -/
def place (disk : Disk) (path : String) : Option Bytes → Disk
  | some data => (disk.save path data).2
  | none => (disk.makeDirectories (disk.start path) (Path.names path)).2

def pathBelow? (place : Location) (below : Location) : Option String :=
  (place.isPrefixOf? below).map fun names => String.intercalate "/" (names.map String.ofList)

/-- The files below home by their paths from there, sorted. -/
def listing (disk : Disk) : List (String × Bytes) :=
  (disk.entries.filterMap fun (place, node) =>
    match node with
    | .file data => (pathBelow? disk.home place).map fun path => (path, data)
    | .directory => none).mergeSort fun a b => a.1 ≤ b.1

end Disk

end Rowcast
