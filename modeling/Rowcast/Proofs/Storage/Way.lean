import Mathlib
import Rowcast.Storage.Disk

/-!
# Where a path leads

`Leads` says where the names of a path lead from a place: each of them is looked up in a directory,
and none is too long.  `LeadsTo` says it of a whole path, and `locate` finds exactly that location
(`locate_eq_ok_iff`).  So the content of a file is fetched exactly where a path leads to that file
(`fetch_eq_ok_iff`), and `isFile` holds exactly where there is something to fetch (`isFile_iff`).

There are no links, so names say by themselves at which location they end (`goto`); what the disk
decides is whether there is a way.  A disk with more directories has all the ways of the other one
(`Leads.mono`).
-/

namespace Rowcast

namespace Disk

/-! ### One step -/

def next (place : Location) (name : List Char) : Location :=
  if name = ['.'] then place
  else if name = ['.', '.'] then place.dropLast
  else place ++ [name]

/-- A name that may be looked up. -/
def IsShort (name : List Char) : Prop := (String.ofList name).utf8ByteSize ≤ maxNameBytes

instance (name : List Char) : Decidable (IsShort name) := Nat.decLe _ _

theorem isShort_dot : IsShort ['.'] := by decide

theorem isShort_dots : IsShort ['.', '.'] := by decide

@[simp] theorem next_dot (place : Location) : next place ['.'] = place := rfl

@[simp] theorem next_dots (place : Location) : next place ['.', '.'] = place.dropLast := rfl

theorem next_of_ne (place : Location) {name : List Char} (hdot : name ≠ ['.'])
    (hdots : name ≠ ['.', '.']) : next place name = place ++ [name] := by
  rw [next, if_neg hdot, if_neg hdots]

theorem move_eq_ok_iff {place target : Location} {name : List Char} :
    move place name = .ok target ↔ IsShort name ∧ target = next place name := by
  unfold move
  split_ifs with hdot hdots hlong
  · rw [hdot, Except.ok.injEq, eq_comm]
    simp [isShort_dot]
  · rw [hdots, Except.ok.injEq, eq_comm]
    simp [isShort_dots]
  · exact iff_of_false nofun fun h => absurd h.1 (Nat.not_le.mpr hlong)
  · rw [Except.ok.injEq, eq_comm, next_of_ne place hdot hdots]
    exact (and_iff_right (Nat.not_lt.mp hlong)).symm

variable {disk after : Disk}

def file? (disk : Disk) (place : Location) : Option Bytes :=
  match disk.node? place with
  | some (.file data) => some data
  | _ => none

theorem file?_eq_some_iff {place : Location} {data : Bytes} :
    disk.file? place = some data ↔ disk.node? place = some (.file data) := by
  unfold file?
  split <;> simp_all

theorem enter_eq_ok_iff {place : Location} :
    disk.enter place = .ok () ↔ disk.node? place = some .directory := by
  unfold enter
  split <;> simp_all

theorem step_eq_ok_iff {place target : Location} {name : List Char} :
    disk.step place name = .ok target ↔
      disk.node? place = some .directory ∧ IsShort name ∧ target = next place name := by
  rw [← enter_eq_ok_iff, ← move_eq_ok_iff, step]
  cases disk.enter place with
  | error fault => simp
  | ok _ => simp

/-! ### All steps -/

def goto (place : Location) (names : List (List Char)) : Location := names.foldl next place

@[simp] theorem goto_nil (place : Location) : goto place [] = place := rfl

@[simp] theorem goto_cons (place : Location) (name : List Char) (names : List (List Char)) :
    goto place (name :: names) = goto (next place name) names := rfl

theorem goto_concat (place : Location) (names : List (List Char)) (name : List Char) :
    goto place (names ++ [name]) = next (goto place names) name := by
  rw [goto, List.foldl_append]
  rfl

/-- Single dots on the way make no difference to its end. -/
theorem goto_filter (place : Location) (names : List (List Char)) :
    goto place (names.filter (· ≠ ['.'])) = goto place names := by
  induction names generalizing place with
  | nil => rfl
  | cons name names ih =>
    by_cases hdot : name = ['.']
    · subst hdot
      rw [List.filter_cons_of_neg (by decide), ih, goto_cons, next_dot]
    · rw [List.filter_cons_of_pos (by simpa using hdot), goto_cons, goto_cons, ih]

inductive Leads (disk : Disk) : Location → List (List Char) → Location → Prop
  | here (place : Location) : Leads disk place [] place
  | step {place target : Location} {name : List Char} {names : List (List Char)}
      (hdirectory : disk.node? place = some .directory) (hshort : IsShort name)
      (h : Leads disk (next place name) names target) : Leads disk place (name :: names) target

variable {place target : Location} {name : List Char} {names : List (List Char)}

theorem walk_eq_ok_iff : disk.walk place names = .ok target ↔ disk.Leads place names target := by
  induction names generalizing place with
  | nil =>
    rw [walk, Except.ok.injEq]
    constructor
    · rintro rfl
      exact .here place
    · rintro ⟨⟩
      rfl
  | cons name names ih =>
    rw [walk]
    cases hstep : disk.step place name with
    | error fault =>
      simp only [reduceCtorEq, false_iff]
      rintro ⟨⟩
      next hdirectory hshort h =>
        rw [step_eq_ok_iff.mpr ⟨hdirectory, hshort, rfl⟩] at hstep
        cases hstep
    | ok between =>
      obtain ⟨hdirectory, hshort, rfl⟩ := step_eq_ok_iff.mp hstep
      dsimp only
      rw [ih]
      constructor
      · exact .step hdirectory hshort
      · rintro ⟨⟩
        assumption

namespace Leads

theorem eq_goto (h : disk.Leads place names target) : target = goto place names := by
  induction h with
  | here => rfl
  | step _ _ _ ih => exact ih

theorem isShort (h : disk.Leads place names target) : ∀ name ∈ names, IsShort name := by
  induction h with
  | here => exact nofun
  | step _ hshort _ ih => exact List.forall_mem_cons.mpr ⟨hshort, ih⟩

/-- A way stays where no directory goes. -/
theorem mono (hkeep : ∀ a, disk.node? a = some .directory → after.node? a = some .directory)
    (h : disk.Leads place names target) : after.Leads place names target := by
  induction h with
  | here place => exact .here place
  | step hdirectory hshort _ ih => exact .step (hkeep _ hdirectory) hshort ih

theorem concat (h : disk.Leads place names target)
    (hdirectory : disk.node? target = some .directory) (hshort : IsShort name) :
    disk.Leads place (names ++ [name]) (next target name) := by
  induction h with
  | here place => exact .step hdirectory hshort (.here _)
  | step hfirst hname _ ih => exact .step hfirst hname (ih hdirectory)

theorem of_concat (h : disk.Leads place (names ++ [name]) target) :
    ∃ parent, disk.Leads place names parent ∧ disk.node? parent = some .directory ∧
      IsShort name ∧ target = next parent name := by
  induction names generalizing place with
  | nil =>
    cases h with
    | step hdirectory hshort h =>
      cases h
      exact ⟨place, .here place, hdirectory, hshort, rfl⟩
  | cons first names ih =>
    cases h with
    | step hdirectory hshort h =>
      obtain ⟨parent, hparent, hrest⟩ := ih h
      exact ⟨parent, .step hdirectory hshort hparent, hrest⟩

/-- A way to a directory has directories only. -/
theorem directory (h : disk.Leads place names target)
    (htarget : disk.node? target = some .directory) {front : List (List Char)}
    (hfront : front <+: names) : disk.node? (goto place front) = some .directory := by
  induction h generalizing front with
  | here place =>
    rw [List.prefix_nil.mp hfront]
    exact htarget
  | step hdirectory _ _ ih =>
    rcases List.prefix_cons_iff.mp hfront with rfl | ⟨rest, rfl, hrest⟩
    · exact hdirectory
    · exact ih htarget hrest

/-- Single dots may be put on a way to a directory. -/
theorem of_filter (h : disk.Leads place (names.filter (· ≠ ['.'])) target)
    (htarget : disk.node? target = some .directory) : disk.Leads place names target := by
  induction names generalizing place with
  | nil => exact h
  | cons name names ih =>
    by_cases hdot : name = ['.']
    · subst hdot
      rw [List.filter_cons_of_neg (by decide)] at h
      exact .step (h.directory htarget List.nil_prefix) isShort_dot (ih h)
    · rw [List.filter_cons_of_pos (by simpa using hdot)] at h
      cases h with
      | step hdirectory hshort h => exact .step hdirectory hshort (ih h)

end Leads

/-- What is done at the end of a way, and done, is done in a directory. -/
theorem exists_leads_of_eq_ok {α : Type} {action : Location → Except Storage.Fault α} {result : α}
    (h : (match disk.walk place names with
      | .error fault => Except.error fault
      | .ok parent =>
        match disk.enter parent with
        | .error fault => Except.error fault
        | .ok () => action parent) = .ok result) :
    ∃ parent, disk.Leads place names parent ∧ disk.node? parent = some .directory ∧
      action parent = .ok result := by
  cases hwalk : disk.walk place names with
  | error fault =>
    rw [hwalk] at h
    cases h
  | ok parent =>
    rw [hwalk] at h
    dsimp only at h
    cases henter : disk.enter parent with
    | error fault =>
      rw [henter] at h
      cases h
    | ok _ =>
      rw [henter] at h
      exact ⟨parent, walk_eq_ok_iff.mp hwalk, enter_eq_ok_iff.mp henter, h⟩

/-! ### Whole paths -/

structure IsPath (path : String) : Prop where
  no_nul : '\x00' ∉ path.toList
  ne_empty : path ≠ ""
  size_le : path.utf8ByteSize ≤ maxPathBytes

theorem checkPath_eq_ok_iff {path : String} : checkPath path = .ok () ↔ IsPath path := by
  unfold checkPath
  split_ifs with hnul hempty hlong
  · exact iff_of_false nofun fun h => h.no_nul hnul
  · exact iff_of_false nofun fun h => h.ne_empty hempty
  · exact iff_of_false nofun fun h => Nat.not_le.mpr hlong h.size_le
  · exact iff_of_true rfl ⟨hnul, hempty, Nat.not_lt.mp hlong⟩

/-- The path leads to a target, and to a directory if it ends in a slash. -/
structure LeadsTo (disk : Disk) (path : String) (target : Location) : Prop where
  isPath : IsPath path
  leads : disk.Leads (disk.start path) (steps path) target
  directory : endsInSlash path = true → disk.node? target = some .directory

/-- **The location of a path is where it leads.** -/
theorem locate_eq_ok_iff {path : String} :
    disk.locate path = .ok target ↔ disk.LeadsTo path target := by
  unfold locate
  cases hcheck : checkPath path with
  | error fault =>
    refine iff_of_false nofun fun h => ?_
    rw [checkPath_eq_ok_iff.mpr h.isPath] at hcheck
    cases hcheck
  | ok _ =>
    dsimp only
    rw [walk_eq_ok_iff]
    have hpath := checkPath_eq_ok_iff.mp hcheck
    by_cases hslash : endsInSlash path = true
    · rw [if_pos hslash]
      constructor
      · intro h
        obtain ⟨parent, hparent, hdirectory, -, rfl⟩ := h.of_concat
        exact ⟨hpath, hparent, fun _ => hdirectory⟩
      · intro h
        exact h.leads.concat (h.directory hslash) isShort_dot
    · rw [if_neg hslash]
      exact ⟨fun h => ⟨hpath, h, fun hends => absurd hends hslash⟩, LeadsTo.leads⟩

/-- The only location that a path can lead to. -/
def destination (disk : Disk) (path : String) : Location := goto (disk.start path) (steps path)

theorem LeadsTo.eq_destination {path : String} (h : disk.LeadsTo path target) :
    target = disk.destination path := h.leads.eq_goto

theorem fetch_eq_ok_iff {path : String} {data : Bytes} :
    disk.fetch path = .ok data ↔
      ∃ target, disk.LeadsTo path target ∧ disk.file? target = some data := by
  unfold fetch
  cases hlocate : disk.locate path with
  | error fault =>
    refine iff_of_false nofun ?_
    rintro ⟨target, h, -⟩
    rw [locate_eq_ok_iff.mpr h] at hlocate
    cases hlocate
  | ok target =>
    have htarget := locate_eq_ok_iff.mp hlocate
    constructor
    · intro h
      refine ⟨target, htarget, file?_eq_some_iff.mpr ?_⟩
      dsimp only at h
      split at h
      · next hfile => rw [hfile, Except.ok.inj h]
      · cases h
      · cases h
    · rintro ⟨other, hother, hfile⟩
      rw [htarget.eq_destination, ← hother.eq_destination]
      dsimp only
      rw [file?_eq_some_iff.mp hfile]

theorem isFile_iff {path : String} :
    disk.isFile path = true ↔ ∃ data, disk.fetch path = .ok data := by
  unfold isFile fetch
  cases disk.locate path with
  | error fault => simp
  | ok target =>
    dsimp only
    split
    · next hfile => simp [hfile]
    · next hfile =>
      split
      · next data hdata => exact absurd hdata (hfile data)
      · simp
      · simp

end Disk

end Rowcast
