import Mathlib
import Rowcast.Proofs.Storage.Way

/-!
# Making directories

Whatever becomes of it, making the directories on a way only adds directories, one by one, each in a
directory and where nothing stood (`Grows`).  So files are what they were (`Grows.file?`), a tree
stays a tree (`Grows.isTree`), and what is new lies on the way (`grows_makeDirectories`).

In a tree it succeeds where no file stands on the way and no name is too long
(`makeDirectories_of_clear`).  As long as the directory before the last name is missing, it is made
first; then the last name is made, or is there, and the way is open to its end
(`ensureDirectory_of_opens`).
-/

namespace Rowcast

namespace Disk

variable {disk after between : Disk} {place target parent : Location} {name : List Char}
  {names : List (List Char)} {places others : Location → Prop}

/-! ### Trees -/

/-- Everything stands in a directory. -/
structure IsTree (disk : Disk) : Prop where
  parent : ∀ place name, disk.node? (place ++ [name]) ≠ none → disk.node? place = some .directory

/-- The root is a directory, and so is all that a directory stands in. -/
theorem IsTree.dropLast (h : disk.IsTree) (hplace : disk.node? place = some .directory) :
    disk.node? place.dropLast = some .directory := by
  rcases List.eq_nil_or_concat' place with rfl | ⟨front, name, rfl⟩
  · rfl
  · rw [List.dropLast_concat]
    refine h.parent front name ?_
    rw [hplace]
    exact nofun

theorem IsTree.next (h : disk.IsTree) (hplace : disk.node? place = some .directory)
    (hmoves : name = ['.'] ∨ name = ['.', '.']) :
    disk.node? (next place name) = some .directory := by
  rcases hmoves with rfl | rfl
  · exact hplace
  · exact h.dropLast hplace

theorem node?_put_self (disk : Disk) (hplace : place ≠ []) (node : Node) :
    (disk.put place node).node? place = some node := by
  rw [node?_put disk node hplace, if_pos rfl]

theorem node?_put_of_ne (disk : Disk) {other : Location} (hplace : place ≠ [])
    (hne : other ≠ place) (node : Node) : (disk.put place node).node? other = disk.node? other := by
  rw [node?_put disk node hplace, if_neg hne]

theorem node?_put_of_directory {other : Location} {node : Node} (hplace : place ≠ [])
    (hnot : disk.node? place ≠ some .directory) (h : disk.node? other = some .directory) :
    (disk.put place node).node? other = some .directory := by
  rw [node?_put_of_ne disk hplace ?_ node, h]
  rintro rfl
  exact hnot h

theorem IsTree.put (h : disk.IsTree) (hparent : disk.node? parent = some .directory)
    (hnot : disk.node? (parent ++ [name]) ≠ some .directory) (node : Node) :
    (disk.put (parent ++ [name]) node).IsTree where
  parent := by
    intro place child hchild
    refine node?_put_of_directory (List.concat_ne_nil _ _) hnot ?_
    by_cases heq : place ++ [child] = parent ++ [name]
    · rw [(List.append_inj_left' heq rfl), hparent]
    · rw [node?_put_of_ne disk (List.concat_ne_nil _ _) heq] at hchild
      exact h.parent place child hchild

/-! ### Growing -/

/-- The second disk comes from the first by making directories at some of the places, each in a
directory and where nothing stood. -/
inductive Grows (places : Location → Prop) (disk : Disk) : Disk → Prop
  | refl : Grows places disk disk
  | make {between : Disk} {parent : Location} {name : List Char} (h : Grows places disk between)
      (hparent : between.node? parent = some .directory)
      (hnone : between.node? (parent ++ [name]) = none) (hplace : places (parent ++ [name])) :
      Grows places disk (between.put (parent ++ [name]) .directory)

namespace Grows

theorem mono (hplaces : ∀ a, places a → others a) (h : Grows places disk after) :
    Grows others disk after := by
  induction h with
  | refl => exact .refl
  | make _ hparent hnone hplace ih => exact .make ih hparent hnone (hplaces _ hplace)

theorem trans (h : Grows places disk between) (hafter : Grows places between after) :
    Grows places disk after := by
  induction hafter with
  | refl => exact h
  | make _ hparent hnone hplace ih => exact .make ih hparent hnone hplace

theorem home (h : Grows places disk after) : after.home = disk.home := by
  induction h with
  | refl => rfl
  | make _ _ _ _ ih => rw [home_put, ih]

/-- **Nothing changes but that directories come where nothing stood.** -/
theorem node? (h : Grows places disk after) (a : Location) :
    after.node? a = disk.node? a ∨
      places a ∧ disk.node? a = none ∧ after.node? a = some .directory := by
  induction h with
  | refl => exact .inl rfl
  | @make between parent name _ hparent hnone hplace ih =>
    by_cases heq : a = parent ++ [name]
    · subst heq
      rcases ih with hsame | ⟨-, -, hmade⟩
      · exact .inr ⟨hplace, hsame ▸ hnone, node?_put_self between (List.concat_ne_nil _ _) _⟩
      · rw [hmade] at hnone
        cases hnone
    · rwa [node?_put_of_ne between (List.concat_ne_nil _ _) heq]

theorem directory (h : Grows places disk after) {a : Location}
    (ha : disk.node? a = some .directory) : after.node? a = some .directory := by
  rcases h.node? a with hsame | ⟨-, -, hmade⟩
  · rw [hsame, ha]
  · exact hmade

/-- **All files are what they were.** -/
theorem file? (h : Grows places disk after) (a : Location) : after.file? a = disk.file? a := by
  unfold Disk.file?
  rcases h.node? a with hsame | ⟨-, hnone, hmade⟩
  · rw [hsame]
  · rw [hnone, hmade]

theorem isTree (h : Grows places disk after) (htree : disk.IsTree) : after.IsTree := by
  induction h with
  | refl => exact htree
  | make _ hparent hnone _ ih => exact ih.put hparent (by rw [hnone]; exact nofun) _

end Grows

/-! ### One directory -/

/-- The directory is made where the way is open. -/
theorem makeDirectory_of_leads (h : disk.Leads place names parent)
    (hparent : disk.node? parent = some .directory) (hshort : IsShort name) :
    disk.makeDirectory place (names ++ [name]) =
      if disk.node? (next parent name) = none ∧ name ≠ ['.', '.'] then
        .ok (disk.put (next parent name) .directory)
      else .error .alreadyExists := by
  rw [makeDirectory, List.getLast?_concat, List.dropLast_concat]
  dsimp only
  rw [walk_eq_ok_iff.mpr h]
  dsimp only
  rw [enter_eq_ok_iff.mpr hparent, move_eq_ok_iff.mpr ⟨hshort, rfl⟩]
  dsimp only
  by_cases hdots : name = ['.', '.']
  · rw [if_pos hdots, if_neg fun hboth => hboth.2 hdots]
  · rw [if_neg hdots]
    cases hnode : disk.node? (next parent name) with
    | none => rw [if_pos ⟨rfl, hdots⟩]
    | some node => rw [if_neg fun hboth => nomatch hboth.1]

/-- It is made only there. -/
theorem leads_of_makeDirectory (h : disk.makeDirectory place (names ++ [name]) = .ok after) :
    ∃ parent, disk.Leads place names parent ∧ disk.node? parent = some .directory ∧
      IsShort name := by
  rw [makeDirectory, List.getLast?_concat, List.dropLast_concat] at h
  obtain ⟨parent, hleads, hparent, hmake⟩ := exists_leads_of_eq_ok h
  refine ⟨parent, hleads, hparent, ?_⟩
  split_ifs at hmake
  cases hmove : move parent name with
  | error fault =>
    rw [hmove] at hmake
    cases hmake
  | ok child => exact (move_eq_ok_iff.mp hmove).1

theorem grows_makeDirectory (h : disk.makeDirectory place names = .ok after) :
    Grows (· = goto place names) disk after := by
  rcases List.eq_nil_or_concat' names with rfl | ⟨way, name, rfl⟩
  · cases h
  · obtain ⟨parent, hleads, hparent, hshort⟩ := leads_of_makeDirectory h
    rw [makeDirectory_of_leads hleads hparent hshort] at h
    split_ifs at h with hboth
    obtain ⟨hnone, hdots⟩ := hboth
    have hdot : name ≠ ['.'] := by
      rintro rfl
      rw [next_dot, hparent] at hnone
      cases hnone
    rw [← Except.ok.inj h, goto_concat, ← hleads.eq_goto]
    rw [next_of_ne parent hdot hdots] at hnone ⊢
    exact .make .refl hparent hnone rfl

theorem grows_ensureDirectory (disk : Disk) (place : Location) (names : List (List Char)) :
    Grows (· = goto place names) disk (disk.ensureDirectory place names).2 := by
  unfold ensureDirectory
  cases hmake : disk.makeDirectory place names with
  | ok after => exact grows_makeDirectory hmake
  | error fault =>
    dsimp only
    split <;> exact .refl

/-! ### All directories on a way -/

/-- The places that names pass, their end among them. -/
def OnWay (place : Location) (names : List (List Char)) (a : Location) : Prop :=
  ∃ front, front <+: names ∧ a = goto place front

theorem onWay_iff_mem : OnWay place names target ↔ target ∈ names.inits.map (goto place) := by
  simp only [OnWay, List.mem_map, List.mem_inits, eq_comm]

instance (place : Location) (names : List (List Char)) (a : Location) :
    Decidable (OnWay place names a) :=
  decidable_of_iff _ onWay_iff_mem.symm

theorem grows_makeDirectories (disk : Disk) (place : Location) (names : List (List Char)) :
    Grows (OnWay place names) disk (disk.makeDirectories place names).2 := by
  have hlast (disk : Disk) (names : List (List Char)) :
      Grows (OnWay place names) disk (disk.ensureDirectory place names).2 :=
    (grows_ensureDirectory disk place names).mono fun _ heq => ⟨names, List.prefix_rfl, heq⟩
  have hmono (names : List (List Char)) (a : Location) (h : OnWay place names.dropLast a) :
      OnWay place names a := by
    obtain ⟨front, hfront, heq⟩ := h
    exact ⟨front, hfront.trans (List.dropLast_prefix names), heq⟩
  fun_induction makeDirectories disk place names with
  | case1 => exact .refl
  | case2 names _ hmake between hmade ih =>
    rw [hmade] at ih
    exact (ih.mono (hmono names)).trans (hlast between names)
  | case3 names _ hmake fault between hmade ih =>
    rw [hmade] at ih
    exact ih.mono (hmono names)
  | case4 names _ hmake => exact hlast disk names

/-! ### Where directories can be made -/

/-- The way is open to its end: a directory. -/
def Opens (disk : Disk) (place : Location) (names : List (List Char)) : Prop :=
  ∃ target, disk.Leads place names target ∧ disk.node? target = some .directory

theorem leadsToDirectory_iff :
    disk.leadsToDirectory place names = true ↔ disk.Opens place names := by
  unfold leadsToDirectory Opens
  cases hwalk : disk.walk place names with
  | error fault =>
    refine iff_of_false nofun ?_
    rintro ⟨target, h, -⟩
    rw [walk_eq_ok_iff.mpr h] at hwalk
    cases hwalk
  | ok target =>
    have htarget := walk_eq_ok_iff.mp hwalk
    dsimp only
    rw [isDirectory, beq_iff_eq]
    constructor
    · exact fun h => ⟨target, htarget, h⟩
    · rintro ⟨other, hother, h⟩
      rwa [htarget.eq_goto, ← hother.eq_goto]

theorem ensureDirectory_of_opens (htree : disk.IsTree) (hopens : disk.Opens place names)
    (hshort : IsShort name)
    (hfile : disk.file? (goto place (names ++ [name])) = none) :
    (disk.ensureDirectory place (names ++ [name])).1 = .ok () ∧
      (disk.ensureDirectory place (names ++ [name])).2.Opens place (names ++ [name]) := by
  obtain ⟨parent, hleads, hparent⟩ := hopens
  rw [goto_concat, ← hleads.eq_goto] at hfile
  have hway := hleads.concat hparent hshort
  rw [ensureDirectory, makeDirectory_of_leads hleads hparent hshort]
  by_cases hnone : disk.node? (next parent name) = none ∧ name ≠ ['.', '.']
  · rw [if_pos hnone]
    have hdot : name ≠ ['.'] := by
      rintro rfl
      rw [next_dot, hparent] at hnone
      cases hnone.1
    have hne : next parent name ≠ [] := by
      rw [next_of_ne parent hdot hnone.2]
      exact List.concat_ne_nil _ _
    refine ⟨rfl, _, hway.mono fun a => node?_put_of_directory hne ?_, node?_put_self disk hne _⟩
    rw [hnone.1]
    exact nofun
  · have hdirectory : disk.node? (next parent name) = some .directory := by
      by_cases hdots : name = ['.', '.']
      · exact htree.next hparent (.inr hdots)
      · cases hnode : disk.node? (next parent name) with
        | none => exact absurd ⟨hnode, hdots⟩ hnone
        | some node =>
          cases node with
          | directory => rfl
          | file data =>
            rw [file?_eq_some_iff.mpr hnode] at hfile
            cases hfile
    have hopens : disk.Opens place (names ++ [name]) := ⟨_, hway, hdirectory⟩
    rw [if_neg hnone]
    dsimp only
    rw [if_pos (leadsToDirectory_iff.mpr hopens)]
    exact ⟨rfl, hopens⟩

/-- No file stands on the way, and no name is too long. -/
structure Clear (disk : Disk) (place : Location) (names : List (List Char)) : Prop where
  no_file : ∀ a, OnWay place names a → disk.file? a = none
  isShort : ∀ name ∈ names, IsShort name

theorem clear_iff : disk.Clear place names ↔
    (∀ a ∈ names.inits.map (goto place), disk.file? a = none) ∧ ∀ name ∈ names, IsShort name := by
  simp only [← onWay_iff_mem]
  exact ⟨fun h => ⟨h.no_file, h.isShort⟩, fun h => ⟨h.1, h.2⟩⟩

instance (disk : Disk) (place : Location) (names : List (List Char)) :
    Decidable (disk.Clear place names) :=
  decidable_of_iff _ clear_iff.symm

theorem OnWay.start (place : Location) (names : List (List Char)) : OnWay place names place :=
  ⟨[], List.nil_prefix, rfl⟩

theorem OnWay.last (place : Location) (names : List (List Char)) :
    OnWay place names (goto place names) :=
  ⟨names, List.prefix_rfl, rfl⟩

namespace Clear

theorem of_prefix {front : List (List Char)} (h : disk.Clear place names)
    (hfront : front <+: names) : disk.Clear place front where
  no_file := fun a ⟨way, hway, heq⟩ => h.no_file a ⟨way, hway.trans hfront, heq⟩
  isShort := fun name hname => h.isShort name (hfront.subset hname)

theorem tail (h : disk.Clear place (name :: names)) : disk.Clear (next place name) names where
  no_file := fun a ⟨way, hway, heq⟩ =>
    h.no_file a ⟨name :: way, List.cons_prefix_cons.mpr ⟨rfl, hway⟩, heq⟩
  isShort := fun other hother => h.isShort other (List.mem_cons_of_mem name hother)

/-- A place on a clear way that is no directory is empty. -/
theorem enter (h : disk.Clear place names) (hplace : disk.node? place ≠ some .directory) :
    disk.enter place = .error .noSuchFile := by
  unfold Disk.enter
  cases hnode : disk.node? place with
  | none => rfl
  | some node =>
    cases node with
    | directory => exact absurd hnode hplace
    | file data =>
      have hfile := h.no_file place (.start place names)
      rw [file?_eq_some_iff.mpr hnode] at hfile
      cases hfile

end Clear

/-- A way that is clear but not open lacks a directory. -/
theorem walk_of_not_opens (hclear : disk.Clear place names) (hopens : ¬ disk.Opens place names) :
    disk.walk place names = .error .noSuchFile ∨
      ∃ target, disk.walk place names = .ok target ∧ disk.enter target = .error .noSuchFile := by
  induction names generalizing place with
  | nil => exact .inr ⟨place, rfl, hclear.enter fun hplace => hopens ⟨place, .here place, hplace⟩⟩
  | cons name names ih =>
    have hshort := hclear.isShort name List.mem_cons_self
    by_cases hplace : disk.node? place = some .directory
    · rw [walk, step_eq_ok_iff.mpr ⟨hplace, hshort, rfl⟩]
      refine ih hclear.tail ?_
      rintro ⟨target, hleads, htarget⟩
      exact hopens ⟨target, .step hplace hshort hleads, htarget⟩
    · left
      rw [walk, step, hclear.enter hplace]

theorem makeDirectory_of_not_opens (hclear : disk.Clear place names)
    (hopens : ¬ disk.Opens place names) (name : List Char) :
    disk.makeDirectory place (names ++ [name]) = .error .noSuchFile := by
  rw [makeDirectory, List.getLast?_concat, List.dropLast_concat]
  dsimp only
  rcases walk_of_not_opens hclear hopens with hwalk | ⟨target, hwalk, henter⟩
  · rw [hwalk]
  · rw [hwalk]
    dsimp only
    rw [henter]

/-- **Directories are made where the way is clear.** -/
theorem makeDirectories_of_clear (htree : disk.IsTree)
    (hplace : disk.node? place = some .directory) (hclear : disk.Clear place names) :
    (disk.makeDirectories place names).1 = .ok () ∧
      (disk.makeDirectories place names).2.Opens place names := by
  induction names using List.reverseRecOn with
  | nil =>
    rw [makeDirectories, dif_pos rfl]
    exact ⟨rfl, place, .here place, hplace⟩
  | append_singleton names name ih =>
    have hfront := hclear.of_prefix (List.prefix_append names [name])
    have hshort := hclear.isShort name List.mem_concat_self
    have hlast := hclear.no_file _ (.last place (names ++ [name]))
    rw [makeDirectories, dif_neg (List.concat_ne_nil _ _), List.dropLast_concat]
    by_cases hopens : disk.Opens place names
    · obtain ⟨parent, hleads, hparent⟩ := id hopens
      have hensured := ensureDirectory_of_opens htree hopens hshort hlast
      rw [makeDirectory_of_leads hleads hparent hshort]
      split_ifs <;> exact hensured
    · rw [makeDirectory_of_not_opens hfront hopens]
      obtain ⟨hok, hopened⟩ := ih hfront
      have hgrows := grows_makeDirectories disk place names
      revert hok hopened hgrows
      rcases disk.makeDirectories place names with ⟨result, between⟩
      rintro rfl hopened hgrows
      exact ensureDirectory_of_opens (hgrows.isTree htree) hopened hshort
        ((hgrows.file? _).trans hlast)

end Disk

end Rowcast
