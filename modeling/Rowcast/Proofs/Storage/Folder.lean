import Mathlib
import Rowcast.Proofs.Conversion.Run
import Rowcast.Proofs.Storage.Saving
import Rowcast.Storage.Folder

/-!
# The laws of the store in a folder

What is saved can be fetched, all other files stay what they are, and so do all files where a save
fails (`store_laws`).  These are laws of the disk.  A path of this store is one of the disk with the
folder in front, so what is left to do is to put the two together.

A conversion needs one more law, that `isFile` holds exactly where something can be fetched.  Its
input is looked for first and fetched then, so the fetch never fails (`run_extract`).
-/

namespace Rowcast.Folder

variable {folder after : Folder} {path : String} {data : Bytes}
  {result : Except Storage.Fault Unit}

theorem disk_save (h : folder.save path data = (result, after)) :
    folder.disk.save (Path.join folder.path path) data = (result, after.disk) := by
  unfold save at h
  obtain ⟨rfl, rfl⟩ := Prod.mk.inj h
  rfl

theorem path_save (h : folder.save path data = (result, after)) : after.path = folder.path := by
  unfold save at h
  obtain ⟨-, rfl⟩ := Prod.mk.inj h
  rfl

theorem isFile_iff_fetch :
    folder.isFile path = true ↔ ∃ content, folder.fetch path = .ok content :=
  Disk.isFile_iff

/-- What is saved can be fetched. -/
theorem fetch_save (h : folder.save path data = (.ok (), after)) :
    after.fetch path = .ok data := by
  have hdisk := disk_save h
  rw [fetch, path_save h]
  exact Disk.fetch_eq_ok_iff.mpr
    ⟨_, Disk.leadsTo_save hdisk, by rw [Disk.file?_save hdisk, if_pos rfl]⟩

/-! ### The input of a conversion -/

abbrev Action := ExceptT Failure (StateM (World Folder))

theorem run_isFile (path : String) (world : World Folder) :
    (ExceptT.lift (Host.isFile path) : Action Bool).run.run world =
      (.ok (world.storage.isFile path), world) := rfl

theorem run_fetch (path : String) (world : World Folder) :
    (Conversion.storage (Host.fetch path) : Action Bytes).run.run world =
      ((world.storage.fetch path).mapError .storage, world) := rfl

/-- **The input of a conversion is missing or is fetched**; a directory is never read. -/
theorem run_extract (settings : Settings) (world : World Folder) :
    (Conversion.extract settings : Action (List RawRecord)).run.run world =
      (Conversion.recordsIn settings (world.storage.fetch settings.inputFile).toOption, world) := by
  simp only [Conversion.extract, Conversion.run_bind, run_isFile]
  cases hfetch : world.storage.fetch settings.inputFile with
  | error fault =>
    have hnot : ¬ world.storage.isFile settings.inputFile = true := by
      rw [isFile_iff_fetch, hfetch]
      rintro ⟨content, h⟩
      cases h
    simp only [hnot]
    rfl
  | ok content =>
    simp only [isFile_iff_fetch.mpr ⟨content, hfetch⟩, if_true, Conversion.run_bind, run_fetch,
      hfetch, Except.mapError, Except.toOption, Conversion.recordsIn]
    cases Csv.read settings.csv content <;> rfl

/-! ### All laws -/

/-- **The laws of the store.**  A save that succeeds makes its file, which is then there and has the
data, and changes no other file; one that fails changes no file at all.  On a disk with a home it
succeeds exactly where the disk takes the file.  A path is that of a file exactly where it leads to
one, and a conversion whose input is no file says so. -/
theorem store_laws (folder : Folder) :
    (∀ path data after, folder.save path data = (.ok (), after) →
      after.isFile path = true ∧ after.fetch path = .ok data ∧
      (∀ place, after.disk.file? place =
        if place = folder.disk.destination (Path.join folder.path path) then some data
        else folder.disk.file? place) ∧
      ∀ other content, folder.fetch other = .ok content →
        folder.disk.destination (Path.join folder.path other) ≠
          folder.disk.destination (Path.join folder.path path) →
        after.fetch other = .ok content) ∧
    (∀ path data fault after, folder.save path data = (.error fault, after) →
      ∀ place, after.disk.file? place = folder.disk.file? place) ∧
    (folder.disk.HasHome → ∀ path data,
      (folder.save path data).2.disk.HasHome ∧
      ((folder.save path data).1 = .ok () ↔
        ∃ way name, folder.disk.Takes (Path.join folder.path path) way name)) ∧
    (∀ path, folder.isFile path = true ↔
      ∃ place content, folder.disk.LeadsTo (Path.join folder.path path) place ∧
        folder.disk.file? place = some content) ∧
    ∀ settings (world : World Folder), world.storage = folder →
      (folder.isFile settings.inputFile = false →
        (Conversion.extract settings : Action (List RawRecord)).run.run world =
          (.error (.inputNotFound settings.inputFile), world)) ∧
      (folder.isFile settings.inputFile = true →
        ∃ content, folder.fetch settings.inputFile = .ok content ∧
          (Conversion.extract settings : Action (List RawRecord)).run.run world =
            ((Csv.read settings.csv content).mapError .input, world)) := by
  refine ⟨?saved, ?failed, ?takes, ?isFile, ?extract⟩
  case saved =>
    intro path data after h
    have hdisk := disk_save h
    refine ⟨isFile_iff_fetch.mpr ⟨data, fetch_save h⟩, fetch_save h, Disk.file?_save hdisk, ?_⟩
    intro other content hfetch hne
    rw [fetch, path_save h]
    exact Disk.fetch_save_of_ne hdisk hfetch hne
  case failed =>
    intro path data fault after h
    exact Disk.file?_save_of_error (disk_save h)
  case takes =>
    intro hhome path data
    rcases h : folder.save path data with ⟨result, after⟩
    have hdisk := disk_save h
    have hiff : (folder.disk.save (Path.join folder.path path) data).1 = .ok () ↔ _ :=
      Disk.save_eq_ok_iff hhome
    rw [hdisk] at hiff
    exact ⟨hhome.save hdisk, hiff⟩
  case isFile =>
    intro path
    rw [isFile_iff_fetch, exists_comm]
    exact exists_congr fun content => Disk.fetch_eq_ok_iff
  case extract =>
    rintro settings world rfl
    rw [run_extract, Bool.eq_false_iff, ne_eq, isFile_iff_fetch]
    cases world.storage.fetch settings.inputFile with
    | error fault => exact ⟨fun _ => rfl, nofun⟩
    | ok content => exact ⟨fun hnot => absurd ⟨content, rfl⟩ hnot, fun _ => ⟨content, rfl, rfl⟩⟩

def sample : Folder :=
  .ofHome (((⟨[], [['h']]⟩ : Disk).put [['h']] .directory).put [['h'], ['a']] (.file [97]))

theorem path_sample : sample.path = "." := rfl

theorem hasHome_sample : sample.disk.HasHome := by
  have hhome : ((⟨[], [['h']]⟩ : Disk).put ([] ++ [['h']]) .directory).IsTree :=
    (Disk.isTree_empty [['h']]).put rfl (by decide) _
  have hfile : (((⟨[], [['h']]⟩ : Disk).put ([] ++ [['h']]) .directory).put
      ([['h']] ++ [['a']]) (.file [97])).IsTree :=
    hhome.put rfl (by decide) _
  exact ⟨hfile, rfl⟩

theorem start_sample {path : String} (h : Path.isAbsolute path = false) :
    sample.disk.start path = [['h']] := by
  rw [Disk.start, h]
  rfl

/-- A path through a new directory and back is taken. -/
theorem takes_sample : sample.disk.Takes "./n/../o" [['.'], ['n'], ['.', '.']] ['o'] := by
  have hstart : sample.disk.start "./n/../o" = [['h']] := start_sample (by cbv)
  have hfile : Disk.IsFilePath "./n/../o" [['.'], ['n'], ['.', '.']] ['o'] :=
    ⟨⟨by simp, by simp, by cbv⟩, by cbv, by cbv, by decide, by decide, by decide⟩
  have hend : sample.disk.destination "./n/../o" = [['h'], ['o']] := by
    rw [hfile.destination_eq, hstart]
    rfl
  refine ⟨hfile, ?_, ?_, ?_⟩
  · rw [hstart]
    decide
  · rw [hend]
    decide
  · rw [hstart, hend]
    decide

/-- A path through a file is not. -/
theorem not_takes_sample {way : List (List Char)} {name : List Char} :
    ¬ sample.disk.Takes "./a/o" way name := by
  intro h
  have hsteps : [['.'], ['a']] ++ [['o']] = way ++ [name] := by
    rw [← h.steps_eq]
    cbv
  obtain rfl := List.append_inj_left' hsteps rfl
  have hfile := h.clear.no_file _ (.last _ _)
  rw [start_sample (by cbv)] at hfile
  cases hfile

def directorySettings : Settings := ⟨"", .table, none, ⟨44, 34, true, false, false⟩, 10, true⟩

theorem isFile_directorySettings : sample.isFile directorySettings.inputFile = false := by
  have hleads (place : Location) (h : sample.disk.LeadsTo "./" place) : place = [['h']] := by
    rw [h.eq_destination, Disk.destination, start_sample (by cbv)]
    cbv
  rw [Bool.eq_false_iff, ne_eq, isFile_iff_fetch]
  rintro ⟨content, h⟩
  obtain ⟨place, hplace, hfile⟩ := Disk.fetch_eq_ok_iff.mp h
  rw [hleads place hplace] at hfile
  cases hfile

theorem store_laws_of_sample :
    sample.disk.HasHome ∧
    (∃ after, sample.save "n/../o" [98] = (.ok (), after) ∧ after.fetch "n/../o" = .ok [98] ∧
      after.disk.file? [['h'], ['a']] = some [97]) ∧
    (∃ fault after, sample.save "a/o" [98] = (.error fault, after) ∧
      after.disk.file? [['h'], ['a']] = some [97]) ∧
    (Conversion.extract directorySettings : Action (List RawRecord)).run.run
        (.ofStorage sample fun _ => none) =
      (.error (.inputNotFound ""), .ofStorage sample fun _ => none) := by
  obtain ⟨hsaved, hfailed, htakes, -, hextract⟩ := store_laws sample
  refine ⟨hasHome_sample, ?saved, ?failed,
    (hextract directorySettings _ rfl).1 isFile_directorySettings⟩
  case saved =>
    have hjoin : Path.join sample.path "n/../o" = "./n/../o" := by
      rw [path_sample]
      cbv
    have hok := (htakes hasHome_sample "n/../o" [98]).2.mpr ⟨_, _, hjoin ▸ takes_sample⟩
    rcases hsave : sample.save "n/../o" [98] with ⟨result, after⟩
    rw [hsave] at hok
    obtain rfl : result = .ok () := hok
    obtain ⟨-, hfetch, hfiles, -⟩ := hsaved _ _ after hsave
    refine ⟨after, rfl, hfetch, ?_⟩
    rw [hfiles, hjoin, takes_sample.destination_eq, start_sample (by cbv)]
    decide
  case failed =>
    have hjoin : Path.join sample.path "a/o" = "./a/o" := by
      rw [path_sample]
      cbv
    have hnot : ¬ (sample.save "a/o" [98]).1 = .ok () := by
      rw [(htakes hasHome_sample "a/o" [98]).2, hjoin]
      rintro ⟨way, name, h⟩
      exact not_takes_sample h
    rcases hsave : sample.save "a/o" [98] with ⟨fault | _, after⟩
    · refine ⟨fault, after, rfl, ?_⟩
      rw [hfailed _ _ _ _ hsave]
      decide
    · exact absurd (congrArg Prod.fst hsave) hnot

end Rowcast.Folder
