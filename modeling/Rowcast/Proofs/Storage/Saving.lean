import Mathlib
import Rowcast.Proofs.Storage.Directory
import Rowcast.Proofs.Text.Separator

/-!
# Saving a file

Saving first makes the directories on the way to the file and then puts the file, and each of the
two may fail.  `save_cases` says all that can become of it: the disk has grown by directories on the
way, and where the result is good the file was put into the disk that has grown so.  Growing leaves
all files alone, and putting a file touches its own location only, so the rest follows by reading
off: a disk that was saved to leads to the file (`leadsTo_save`), and the other files are what they
were (`file?_save`, `file?_save_of_error`).

`Takes` is what a tree must be like for a save to succeed (`save_eq_ok_iff`).  Single dots need some
care there.  The directories are made on the way without them, but the file is put on the way as it
is written.  That everything stands in a directory, home with the rest, is so from the start and
after every change (`hasHome_ofHome`, `hasHome_place`, `HasHome.save`).
-/

namespace Rowcast

namespace Path

theorem parent_prefix (path : String) : (parent path).toList <+: path.toList := by
  rw [parent, String.toList_ofList]
  have hnames : path.toList = ['/'].intercalate (path.toList.splitOn '/') :=
    (List.intercalate_splitOn '/').symm
  conv_rhs => rw [hnames]
  refine Text.prefix_intercalate ['/'] ?_
  exact (List.rdropWhile_prefix _ _).trans
    ((List.dropLast_prefix _).trans (List.rdropWhile_prefix _ _))

theorem utf8ByteSize_parent_le (path : String) :
    (parent path).utf8ByteSize ≤ path.utf8ByteSize := by
  obtain ⟨rest, hrest⟩ := parent_prefix path
  have heq : parent path ++ String.ofList rest = path := by
    rw [← String.toList_inj, String.toList_append, String.toList_ofList, hrest]
  calc (parent path).utf8ByteSize
      ≤ (parent path).utf8ByteSize + (String.ofList rest).utf8ByteSize := Nat.le_add_right _ _
    _ = path.utf8ByteSize := by rw [← String.utf8ByteSize_append, heq]

theorem subset_of_mem_names {path : String} {name : List Char} (h : name ∈ names path) :
    name ⊆ path.toList := by
  have hsubset := Text.subset_intercalate ['/'] (List.mem_of_mem_filter h)
  rwa [List.intercalate_splitOn] at hsubset

end Path

namespace Disk

variable {disk after between : Disk} {path : String} {way : List (List Char)} {name : List Char}
  {place target : Location} {data : Bytes}

/-! ### Paths of files -/

/-- The path of a file: the names on the way to it, and its own. -/
structure IsFilePath (path : String) (way : List (List Char)) (name : List Char) : Prop where
  isPath : IsPath path
  no_slash : endsInSlash path = false
  steps_eq : steps path = way ++ [name]
  isShort : IsShort name
  ne_dot : name ≠ ['.']
  ne_dots : name ≠ ['.', '.']

theorem names_eq_filter (path : String) : Path.names path = (steps path).filter (· ≠ ['.']) := by
  rw [steps, List.filter_filter, Path.names]
  refine List.filter_congr fun name _ => ?_
  simp [Bool.and_comm, beq_eq_decide]

namespace IsFilePath

theorem dropLast_names (h : IsFilePath path way name) :
    (Path.names path).dropLast = way.filter (· ≠ ['.']) := by
  rw [names_eq_filter, h.steps_eq, List.filter_append,
    List.filter_cons_of_pos (by simpa using h.ne_dot), List.filter_nil, List.dropLast_concat]

theorem next_eq (h : IsFilePath path way name) (place : Location) :
    next place name = place ++ [name] :=
  next_of_ne place h.ne_dot h.ne_dots

theorem destination_eq (h : IsFilePath path way name) (disk : Disk) :
    disk.destination path = goto (disk.start path) way ++ [name] := by
  rw [destination, h.steps_eq, goto_concat, h.next_eq]

theorem destination_ne_nil (h : IsFilePath path way name) (disk : Disk) :
    disk.destination path ≠ [] := by
  rw [h.destination_eq]
  exact List.concat_ne_nil _ _

end IsFilePath

/-! ### The same paths on another disk -/

theorem start_eq (h : after.home = disk.home) (path : String) :
    after.start path = disk.start path := by
  rw [start, h, start]

theorem destination_eq_of_home (h : after.home = disk.home) (path : String) :
    after.destination path = disk.destination path := by
  rw [destination, start_eq h, destination]

theorem LeadsTo.mono (hhome : after.home = disk.home)
    (hkeep : ∀ a, disk.node? a = some .directory → after.node? a = some .directory)
    (h : disk.LeadsTo path target) : after.LeadsTo path target where
  isPath := h.isPath
  leads := by
    rw [start_eq hhome]
    exact h.leads.mono hkeep
  directory := fun hslash => hkeep target (h.directory hslash)

/-! ### Putting a file -/

/-- A file can be put under a path: the way to it is open, and no directory is in its place. -/
structure Receives (disk : Disk) (path : String) (way : List (List Char)) (name : List Char) : Prop
    extends IsFilePath path way name where
  opens : disk.Opens (disk.start path) way
  no_directory : disk.node? (disk.destination path) ≠ some .directory

theorem locateFile_of_opens (h : IsFilePath path way name)
    (hopens : disk.Opens (disk.start path) way) :
    disk.locateFile path = .ok (disk.destination path) := by
  obtain ⟨parent, hleads, hparent⟩ := hopens
  rw [locateFile, checkPath_eq_ok_iff.mpr h.isPath, h.steps_eq]
  dsimp only
  rw [List.getLast?_concat, List.dropLast_concat]
  dsimp only
  rw [walk_eq_ok_iff.mpr hleads]
  dsimp only
  rw [enter_eq_ok_iff.mpr hparent]
  dsimp only
  rw [if_neg (by simp [h.no_slash, h.ne_dot, h.ne_dots]),
    move_eq_ok_iff.mpr ⟨h.isShort, (h.next_eq parent).symm⟩, h.destination_eq, hleads.eq_goto]

theorem opens_of_locateFile (h : disk.locateFile path = .ok place) :
    ∃ way name, IsFilePath path way name ∧ disk.Opens (disk.start path) way := by
  unfold locateFile at h
  cases hcheck : checkPath path with
  | error fault =>
    rw [hcheck] at h
    cases h
  | ok _ =>
    rcases List.eq_nil_or_concat' (steps path) with hnil | ⟨way, name, hsteps⟩
    · rw [hcheck, hnil] at h
      cases h
    · rw [hcheck, hsteps] at h
      dsimp only at h
      rw [List.getLast?_concat, List.dropLast_concat] at h
      obtain ⟨parent, hleads, hparent, hmove⟩ := exists_leads_of_eq_ok h
      split_ifs at hmove with hmoves
      obtain ⟨hslash, hdot, hdots⟩ := by simpa only [not_or] using hmoves
      exact ⟨way, name, ⟨checkPath_eq_ok_iff.mp hcheck, by simpa using hslash, hsteps,
        (move_eq_ok_iff.mp hmove).1, hdot, hdots⟩, parent, hleads, hparent⟩

/-- **A file is put where a path can receive one**, and nowhere else. -/
theorem putFile_eq_ok_iff :
    disk.putFile path data = .ok after ↔
      ∃ way name, disk.Receives path way name ∧
        after = disk.put (disk.destination path) (.file data) := by
  constructor
  · intro h
    unfold putFile at h
    cases hlocate : disk.locateFile path with
    | error fault =>
      rw [hlocate] at h
      cases h
    | ok place =>
      obtain ⟨way, name, hfile, hopens⟩ := opens_of_locateFile hlocate
      obtain rfl : disk.destination path = place :=
        Except.ok.inj ((locateFile_of_opens hfile hopens).symm.trans hlocate)
      rw [hlocate] at h
      dsimp only at h
      split_ifs at h with hdirectory
      refine ⟨way, name, ⟨hfile, hopens, ?_⟩, (Except.ok.inj h).symm⟩
      simpa [isDirectory] using hdirectory
  · rintro ⟨way, name, h, rfl⟩
    rw [putFile, locateFile_of_opens h.toIsFilePath h.opens]
    dsimp only
    rw [if_neg (by simpa [isDirectory] using h.no_directory)]

namespace Receives

/-- All that is passed on the way to the file are directories. -/
theorem directory (h : disk.Receives path way name)
    (hplace : OnWay (disk.start path) way place) : disk.node? place = some .directory := by
  obtain ⟨parent, hleads, hparent⟩ := h.opens
  obtain ⟨front, hfront, rfl⟩ := hplace
  exact hleads.directory hparent hfront

/-- Putting the file leaves all directories. -/
theorem directory_put (h : disk.Receives path way name) (data : Bytes) (a : Location)
    (ha : disk.node? a = some .directory) :
    (disk.put (disk.destination path) (.file data)).node? a = some .directory :=
  node?_put_of_directory (h.destination_ne_nil disk) h.no_directory ha

theorem isTree_put (h : disk.Receives path way name) (data : Bytes) (htree : disk.IsTree) :
    (disk.put (disk.destination path) (.file data)).IsTree := by
  have hnot := h.no_directory
  rw [h.destination_eq] at hnot ⊢
  exact htree.put (h.directory (.last _ way)) hnot _

/-- The path leads to the file that is put under it. -/
theorem leadsTo_put (h : disk.Receives path way name) (data : Bytes) :
    (disk.put (disk.destination path) (.file data)).LeadsTo path (disk.destination path) := by
  obtain ⟨parent, hleads, hparent⟩ := h.opens
  refine LeadsTo.mono (home_put disk _ _) (h.directory_put data) ⟨h.isPath, ?_, ?_⟩
  · rw [h.steps_eq, h.destination_eq, ← h.next_eq (goto _ _), ← hleads.eq_goto]
    exact hleads.concat hparent h.isShort
  · rw [h.no_slash]
    exact nofun

end Receives

/-! ### What saving does -/

theorem grows_makeParents (disk : Disk) (path : String) :
    Grows (OnWay (disk.start path) (Path.names path).dropLast) disk (disk.makeParents path).2 := by
  unfold makeParents
  dsimp only
  split_ifs
  · exact .refl
  · exact .refl
  · exact grows_makeDirectories disk _ _

/-- The same places are passed without the single dots. -/
theorem onWay_filter : OnWay place (way.filter (· ≠ ['.'])) target ↔ OnWay place way target := by
  constructor
  · rintro ⟨front, hfront, rfl⟩
    obtain ⟨whole, hwhole, rfl⟩ := List.prefix_filter_iff.mp hfront
    exact ⟨whole, hwhole, goto_filter place whole⟩
  · rintro ⟨front, hfront, rfl⟩
    exact ⟨_, hfront.filter _, (goto_filter place front).symm⟩

/-- **What becomes of saving a file.** -/
theorem save_cases {result : Except Storage.Fault Unit}
    (h : disk.save path data = (result, after)) :
    (∃ fault, result = .error fault ∧
      Grows (OnWay (disk.start path) (Path.names path).dropLast) disk after) ∨
    (result = .ok () ∧ ∃ between way name,
      Grows (OnWay (disk.start path) way) disk between ∧ between.Receives path way name ∧
      after = between.put (between.destination path) (.file data)) := by
  have hgrows := grows_makeParents disk path
  unfold save at h
  rcases hparents : disk.makeParents path with ⟨fault | _, between⟩
  · rw [hparents] at h hgrows
    obtain ⟨rfl, rfl⟩ := Prod.mk.inj h
    exact .inl ⟨fault, rfl, hgrows⟩
  · rw [hparents] at h hgrows
    dsimp only at h
    cases hput : between.putFile path data with
    | error fault =>
      rw [hput] at h
      obtain ⟨rfl, rfl⟩ := Prod.mk.inj h
      exact .inl ⟨fault, rfl, hgrows⟩
    | ok disk =>
      rw [hput] at h
      obtain ⟨rfl, rfl⟩ := Prod.mk.inj h
      obtain ⟨way, name, hreceives, heq⟩ := putFile_eq_ok_iff.mp hput
      rw [hreceives.dropLast_names] at hgrows
      exact .inr ⟨rfl, between, way, name, hgrows.mono fun a => onWay_filter.mp, hreceives, heq⟩

/-- **A save that fails leaves all files alone.** -/
theorem file?_save_of_error {fault : Storage.Fault}
    (h : disk.save path data = (.error fault, after)) (a : Location) :
    after.file? a = disk.file? a := by
  rcases save_cases h with ⟨_, -, hgrows⟩ | ⟨hok, -⟩
  · exact hgrows.file? a
  · cases hok

/-- **A save makes the file that its path leads to, and leaves all others alone.** -/
theorem file?_save (h : disk.save path data = (.ok (), after)) (a : Location) :
    after.file? a = if a = disk.destination path then some data else disk.file? a := by
  rcases save_cases h with ⟨_, herror, -⟩ | ⟨-, between, way, name, hgrows, hreceives, rfl⟩
  · cases herror
  · rw [file?, node?_put between _ (hreceives.destination_ne_nil between),
      destination_eq_of_home hgrows.home]
    by_cases ha : a = disk.destination path
    · rw [if_pos ha, if_pos ha]
    · rw [if_neg ha, if_neg ha]
      exact hgrows.file? a

theorem leadsTo_save (h : disk.save path data = (.ok (), after)) :
    after.LeadsTo path (disk.destination path) := by
  rcases save_cases h with ⟨_, herror, -⟩ | ⟨-, between, way, name, hgrows, hreceives, rfl⟩
  · cases herror
  · rw [← destination_eq_of_home hgrows.home]
    exact hreceives.leadsTo_put data

/-- No way is lost by saving a file. -/
theorem LeadsTo.save {result : Except Storage.Fault Unit} {other : String}
    (h : disk.save path data = (result, after)) (hother : disk.LeadsTo other target) :
    after.LeadsTo other target := by
  rcases save_cases h with ⟨_, -, hgrows⟩ | ⟨-, between, way, name, hgrows, hreceives, rfl⟩
  · exact hother.mono hgrows.home fun a => hgrows.directory
  · exact (hother.mono hgrows.home fun a => hgrows.directory).mono (home_put between _ _)
      (hreceives.directory_put data)

/-- What could be fetched can still be fetched, under each path that leads elsewhere. -/
theorem fetch_save_of_ne {result : Except Storage.Fault Unit} {other : String} {content : Bytes}
    (h : disk.save path data = (result, after)) (hfetch : disk.fetch other = .ok content)
    (hne : disk.destination other ≠ disk.destination path) :
    after.fetch other = .ok content := by
  obtain ⟨place, hother, hfile⟩ := fetch_eq_ok_iff.mp hfetch
  refine fetch_eq_ok_iff.mpr ⟨place, hother.save h, ?_⟩
  rw [← hother.eq_destination] at hne
  cases result with
  | error fault => rw [file?_save_of_error h, hfile]
  | ok _ => rw [file?_save h, if_neg hne, hfile]

/-! ### Where saving succeeds -/

structure HasHome (disk : Disk) : Prop extends IsTree disk where
  home : disk.node? disk.home = some .directory

namespace HasHome

theorem grows {places : Location → Prop} (h : disk.HasHome) (hgrows : Grows places disk after) :
    after.HasHome where
  toIsTree := hgrows.isTree h.toIsTree
  home := by
    rw [hgrows.home]
    exact hgrows.directory h.home

theorem save {result : Except Storage.Fault Unit} (h : disk.HasHome)
    (hsave : disk.save path data = (result, after)) : after.HasHome := by
  rcases save_cases hsave with ⟨_, -, hgrows⟩ | ⟨-, between, way, name, hgrows, hreceives, rfl⟩
  · exact h.grows hgrows
  · have hbetween := h.grows hgrows
    exact ⟨hreceives.isTree_put data hbetween.toIsTree,
      hreceives.directory_put data _ hbetween.home⟩

theorem start (h : disk.HasHome) (path : String) :
    disk.node? (disk.start path) = some .directory := by
  unfold Disk.start
  split_ifs
  · rfl
  · exact h.home

end HasHome

/-- A file can be saved under a path: no file is in the way to it, and no directory in its place,
also none that is made on the way. -/
structure Takes (disk : Disk) (path : String) (way : List (List Char)) (name : List Char) : Prop
    extends IsFilePath path way name where
  clear : disk.Clear (disk.start path) way
  no_directory : disk.node? (disk.destination path) ≠ some .directory
  not_onWay : ¬ OnWay (disk.start path) way (disk.destination path)

theorem Clear.filter (h : disk.Clear place way) : disk.Clear place (way.filter (· ≠ ['.'])) where
  no_file := fun a ha => h.no_file a (onWay_filter.mp ha)
  isShort := fun name hname => h.isShort name (List.mem_of_mem_filter hname)

theorem makeParents_of_isFilePath (disk : Disk) (h : IsFilePath path way name) :
    disk.makeParents path =
      disk.makeDirectories (disk.start path) (way.filter (· ≠ ['.'])) := by
  have hnul : ¬ ((Path.names path).dropLast.any fun name => '\x00' ∈ name) = true := by
    rw [List.any_eq_true]
    rintro ⟨other, hother, hmem⟩
    exact h.isPath.no_nul
      (Path.subset_of_mem_names (List.dropLast_subset _ hother) (of_decide_eq_true hmem))
  have hsize : ¬ maxPathBytes < (Path.parent path).utf8ByteSize :=
    Nat.not_lt.mpr ((Path.utf8ByteSize_parent_le path).trans h.isPath.size_le)
  unfold makeParents
  dsimp only
  rw [if_neg hnul, if_neg hsize, h.dropLast_names]

theorem takes_of_receives (hgrows : Grows (OnWay (disk.start path) way) disk between)
    (h : between.Receives path way name) : disk.Takes path way name where
  toIsFilePath := h.toIsFilePath
  clear := by
    refine ⟨fun a ha => ?_, ?_⟩
    · rw [← start_eq hgrows.home] at ha
      rw [← hgrows.file? a, file?, h.directory ha]
    · obtain ⟨parent, hleads, -⟩ := h.opens
      exact hleads.isShort
  no_directory := by
    have hnot := h.no_directory
    rw [destination_eq_of_home hgrows.home] at hnot
    exact fun hdirectory => hnot (hgrows.directory hdirectory)
  not_onWay := by
    rw [← start_eq hgrows.home, ← destination_eq_of_home hgrows.home]
    exact fun ha => h.no_directory (h.directory ha)

theorem receives_of_takes (hgrows : Grows (OnWay (disk.start path) way) disk between)
    (hopens : between.Opens (disk.start path) way) (h : disk.Takes path way name) :
    between.Receives path way name where
  toIsFilePath := h.toIsFilePath
  opens := by
    rw [start_eq hgrows.home]
    exact hopens
  no_directory := by
    rw [destination_eq_of_home hgrows.home]
    rcases hgrows.node? (disk.destination path) with hsame | ⟨hplace, -⟩
    · rw [hsame]
      exact h.no_directory
    · exact absurd hplace h.not_onWay

/-- **Where a tree takes a file, saving it succeeds, and only there.** -/
theorem save_eq_ok_iff (hhome : disk.HasHome) :
    (disk.save path data).1 = .ok () ↔ ∃ way name, disk.Takes path way name := by
  constructor
  · intro hok
    rcases save_cases (Prod.eta (disk.save path data)).symm with
      ⟨_, herror, -⟩ | ⟨-, between, way, name, hgrows, hreceives, -⟩
    · rw [hok] at herror
      cases herror
    · exact ⟨way, name, takes_of_receives hgrows hreceives⟩
  · rintro ⟨way, name, h⟩
    obtain ⟨hok, target, hleads, htarget⟩ :=
      makeDirectories_of_clear hhome.toIsTree (hhome.start path) h.clear.filter
    have hgrows := grows_makeDirectories disk (disk.start path) (way.filter (· ≠ ['.']))
    rw [save, makeParents_of_isFilePath disk h.toIsFilePath]
    rcases hmade : disk.makeDirectories (disk.start path) (way.filter (· ≠ ['.'])) with
      ⟨result, between⟩
    rw [hmade] at hok hleads htarget hgrows
    obtain rfl : result = .ok () := hok
    have hreceives := receives_of_takes (hgrows.mono fun a => onWay_filter.mp)
      ⟨target, hleads.of_filter htarget, htarget⟩ h
    dsimp only
    rw [putFile_eq_ok_iff.mpr ⟨way, name, hreceives, rfl⟩]

/-! ### Disks from the start -/

theorem isTree_empty (home : Location) : (⟨[], home⟩ : Disk).IsTree where
  parent := by
    intro place name h
    refine absurd ?_ h
    cases place <;> rfl

theorem goto_of_ne (place : Location) (h : ∀ name ∈ way, name ≠ ['.'] ∧ name ≠ ['.', '.']) :
    goto place way = place ++ way := by
  induction way generalizing place with
  | nil => simp
  | cons name way ih =>
    obtain ⟨⟨hdot, hdots⟩, hway⟩ := List.forall_mem_cons.mp h
    rw [goto_cons, next_of_ne place hdot hdots, ih _ hway, List.append_assoc, List.singleton_append]

theorem hasHome_ofHome {home : Location}
    (h : ∀ name ∈ home, name ≠ ['.'] ∧ name ≠ ['.', '.'] ∧ IsShort name) :
    (ofHome home).HasHome := by
  have hclear : (⟨[], home⟩ : Disk).Clear [] home :=
    ⟨fun a _ => by cases a <;> rfl, fun name hname => (h name hname).2.2⟩
  have hgrows := grows_makeDirectories ⟨[], home⟩ [] home
  obtain ⟨-, place, hleads, hplace⟩ := makeDirectories_of_clear (isTree_empty home) rfl hclear
  refine ⟨hgrows.isTree (isTree_empty home), ?_⟩
  obtain rfl : place = home := by
    rw [hleads.eq_goto, goto_of_ne [] fun name hname => ⟨(h name hname).1, (h name hname).2.1⟩,
      List.nil_append]
  rw [ofHome, hgrows.home]
  exact hplace

theorem hasHome_place (h : disk.HasHome) (path : String) (content : Option Bytes) :
    (disk.place path content).HasHome := by
  cases content with
  | none => exact h.grows (grows_makeDirectories disk _ _)
  | some data => exact h.save (Prod.eta (disk.save path data)).symm

end Disk

end Rowcast
