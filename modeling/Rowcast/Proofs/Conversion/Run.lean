import Mathlib
import Rowcast.Conversion
import Rowcast.Proofs.Settings.Resolve
import Rowcast.Storage.Memory

/-!
# One conversion in a store

A conversion is told by its settings and the content of its input file.  `outcomeOf` says what
becomes of it and `savedFile?` which file it leaves behind; `perform_run` proves that a run in a
world does what the two say, and nothing else to the store.  Each of the failures on the way, a
missing file or a field that is not text, comes before anything is saved, and so does the crash of
a table that cannot be drawn.

The file that is saved is never the one that was read (`Settings.Resolved.target_ne_inputFile`), so
the content of the input file is what it was, and a second run has the same outcome and saves the
same file once more, which changes nothing (`Memory.save_save`).
-/

namespace Rowcast

/-! ## The store -/

namespace Memory

@[simp] theorem fetch_save (store : Memory) (path : String) (data : Bytes) :
    (store.save path data).fetch path = .ok data := by
  simp [fetch, save]

theorem fetch_save_ne (store : Memory) {path other : String} (data : Bytes) (h : other ≠ path) :
    (store.save path data).fetch other = store.fetch other := by
  simp [fetch, save, Record.get?_set_ne store.files data h]

theorem fetch_eq_ok_iff {store : Memory} {path : String} {data : Bytes} :
    store.fetch path = .ok data ↔ store.files.get? path = some data := by
  unfold fetch
  cases store.files.get? path <;> simp

theorem setField_setField {α : Type} (key : String) (value : α) (fields : List (String × α)) :
    setField key value (setField key value fields) = setField key value fields := by
  induction fields with
  | nil => simp [setField]
  | cons field rest ih =>
    obtain ⟨k, v⟩ := field
    by_cases h : k = key
    · simp [setField, h]
    · simp [setField, h, ih]

/-- Saving the same file once more changes nothing. -/
theorem save_save (store : Memory) (path : String) (data : Bytes) :
    (store.save path data).save path data = store.save path data := by
  have hfields : ((store.files.set path data).set path data).fields =
      (store.files.set path data).fields := setField_setField path data store.files.fields
  exact congrArg Memory.mk (Record.ext hfields)

end Memory

namespace Conversion

/-! ## Actions in a world -/

/-- One action after another: the second is done in the world after the first, if that succeeds. -/
theorem run_bind {σ ε α β : Type} (action : ExceptT ε (StateM σ) α)
    (next : α → ExceptT ε (StateM σ) β) (world : σ) :
    (action >>= next).run.run world =
      match action.run.run world with
      | (.ok a, after) => (next a).run.run after
      | (.error stop, after) => (.error stop, after) := by
  show (ExceptT.bindCont next (action.run.run world).1) (action.run.run world).2 = _
  rcases action.run.run world with ⟨_ | _, after⟩ <;> rfl

abbrev Action (ε : Type) := ExceptT ε (StateM (World Memory))

def perform {ε α : Type} (action : Action ε α) (world : World Memory) :
    Except ε α × World Memory :=
  action.run.run world

section Perform

variable {ε δ α β : Type} (world : World Memory)

theorem perform_bind (action : Action ε α) (next : α → Action ε β) :
    perform (action >>= next) world =
      match perform action world with
      | (.ok a, after) => perform (next a) after
      | (.error stop, after) => (.error stop, after) := by
  unfold perform
  rw [run_bind]
  rcases action.run.run world with ⟨_ | _, after⟩ <;> rfl

theorem perform_adapt (f : ε → δ) (action : Action ε α) :
    perform (action.adapt f) world =
      ((perform action world).1.mapError f, (perform action world).2) := rfl

theorem perform_isFile (path : String) :
    perform (ExceptT.lift (Host.isFile path) : Action ε Bool) world =
      (.ok (world.storage.files.get? path).isSome, world) := rfl

theorem perform_fetch (path : String) :
    perform (storage (Host.fetch path)) world =
      ((world.storage.fetch path).mapError .storage, world) := rfl

theorem perform_save (path : String) (data : Bytes) :
    perform (storage (Host.save path data)) world =
      (.ok (), { world with storage := world.storage.save path data }) := rfl

theorem perform_print (line : Line) :
    perform (ExceptT.lift (Host.print line) : Action ε Unit) world =
      (.ok (), { world with printed := world.printed ++ [line] }) := rfl

end Perform

/-! ## What a run comes to -/

/-- The records in the content of the input file, where there is such a file. -/
def recordsIn (settings : Settings) : Option Bytes → Except Failure (List RawRecord)
  | none => .error (.inputNotFound settings.inputFile)
  | some data => (Csv.read settings.csv data).mapError .input

def shownOutcome (settings : Settings) (records : List OutputRecord) : Except Stop Outcome :=
  match Table.render? records settings.maxTableRows with
  | none => .error .crashed
  | some _ => .ok (.shown (min records.length settings.maxTableRows) records.length)

/-- What becomes of a conversion, by the content of its input file. -/
def outcomeOf (settings : Settings) (input : Option Bytes) : Except Stop Outcome :=
  match recordsIn settings input, settings.target with
  | .error failure, _ => .error (.failed failure)
  | .ok records, .table => shownOutcome settings (transform settings records)
  | .ok records, .file path => .ok (.written path records.length)

/-- The file that a conversion saves, by the content of its input file. -/
def savedFile? (settings : Settings) (input : Option Bytes) : Option (String × Bytes) :=
  match recordsIn settings input, settings.target with
  | .ok records, .file path =>
    some (path, Utf8.encode (fileText settings (transform settings records)))
  | _, _ => none

def inputIn (settings : Settings) (store : Memory) : Option Bytes :=
  store.files.get? settings.inputFile

/-- A store with one more file, if there is one to save. -/
def keep (store : Memory) : Option (String × Bytes) → Memory
  | none => store
  | some (path, data) => store.save path data

theorem perform_extract (settings : Settings) (world : World Memory) :
    perform (extract settings) world =
      (recordsIn settings (inputIn settings world.storage), world) := by
  simp only [extract, perform_bind, perform_isFile, inputIn]
  cases h : world.storage.files.get? settings.inputFile with
  | none => rfl
  | some data =>
    have hfetch : world.storage.fetch settings.inputFile = .ok data := Memory.fetch_eq_ok_iff.mpr h
    simp only [Option.isSome_some, if_true, perform_bind, perform_fetch, hfetch, Except.mapError,
      recordsIn]
    cases Csv.read settings.csv data <;> rfl

theorem perform_showTable (settings : Settings) (records : List OutputRecord)
    (world : World Memory) :
    (perform (showTable settings records) world).1 = shownOutcome settings records ∧
      (perform (showTable settings records) world).2.storage = world.storage := by
  unfold showTable shownOutcome
  by_cases hrows : min records.length settings.maxTableRows < records.length
  · simp only [hrows, if_true, perform_bind, perform_print]
    cases Table.render? records settings.maxTableRows <;> exact ⟨rfl, rfl⟩
  · simp only [hrows, if_false]
    cases Table.render? records settings.maxTableRows <;> exact ⟨rfl, rfl⟩

/-- **What a run does is told by the content of the input file.** -/
theorem perform_run (settings : Settings) (world : World Memory) :
    (perform (run settings) world).1 = outcomeOf settings (inputIn settings world.storage) ∧
      (perform (run settings) world).2.storage =
        keep world.storage (savedFile? settings (inputIn settings world.storage)) := by
  simp only [run, perform_bind, perform_adapt, perform_extract, outcomeOf, savedFile?]
  cases recordsIn settings (inputIn settings world.storage) with
  | error failure => exact ⟨rfl, rfl⟩
  | ok records =>
    simp only [Except.mapError, perform_print, load]
    cases settings.target with
    | table => exact perform_showTable settings _ _
    | file path =>
      simp only [perform_bind, perform_adapt, perform_save]
      exact ⟨congrArg Except.ok (congrArg (Outcome.written path) (List.length_map ..)), rfl⟩

/-! ## What a run leaves alone -/

theorem savedFile?_of_error {settings : Settings} {input : Option Bytes} {stop : Stop}
    (h : outcomeOf settings input = .error stop) : savedFile? settings input = none := by
  unfold outcomeOf at h
  unfold savedFile?
  cases hrecords : recordsIn settings input with
  | error _ => rfl
  | ok records =>
    cases htarget : settings.target with
    | table => rfl
    | file path => simp [hrecords, htarget] at h

theorem savedFile?_of_table {settings : Settings} (input : Option Bytes)
    (h : settings.target = .table) : savedFile? settings input = none := by
  unfold savedFile?
  rw [h]
  cases recordsIn settings input <;> rfl

theorem outcomeOf_eq_written_iff {settings : Settings} {input : Option Bytes} {path : String}
    {count : Nat} : outcomeOf settings input = .ok (.written path count) ↔
      settings.target = .file path ∧
        ∃ records, recordsIn settings input = .ok records ∧ count = records.length := by
  unfold outcomeOf
  cases recordsIn settings input with
  | error failure => simp
  | ok records =>
    cases settings.target with
    | table =>
      simp only [shownOutcome]
      split <;> simp
    | file target =>
      simp only [Except.ok.injEq, Outcome.written.injEq, Target.file.injEq, exists_eq_left']
      exact and_congr_right fun _ => eq_comm

theorem target_of_savedFile? {settings : Settings} {input : Option Bytes} {path : String}
    {data : Bytes} (h : savedFile? settings input = some (path, data)) :
    settings.target = .file path := by
  unfold savedFile? at h
  split at h
  · next htarget =>
    injection h with h
    injection h with hpath
    rw [htarget, hpath]
  · simp at h

theorem savedFile?_of_records {settings : Settings} {input : Option Bytes} {path : String}
    {records : List RawRecord} (htarget : settings.target = .file path)
    (hrecords : recordsIn settings input = .ok records) :
    savedFile? settings input =
      some (path, Utf8.encode (fileText settings (transform settings records))) := by
  simp [savedFile?, htarget, hrecords]

theorem recordsIn_eq_ok_iff {settings : Settings} {store : Memory} {records : List RawRecord} :
    recordsIn settings (inputIn settings store) = .ok records ↔
      ∃ data, store.fetch settings.inputFile = .ok data ∧
        Csv.read settings.csv data = .ok records := by
  simp only [Memory.fetch_eq_ok_iff, inputIn]
  cases store.files.get? settings.inputFile with
  | none => simp [recordsIn]
  | some data =>
    cases hread : Csv.read settings.csv data <;> simp [recordsIn, hread, Except.mapError]

/-- **No run changes the input of any other run, or its own.** -/
theorem fetch_perform_run {settings other : Settings} (h : settings.Resolved)
    (hother : other.Resolved) (world : World Memory) :
    (perform (run settings) world).2.storage.fetch other.inputFile =
      world.storage.fetch other.inputFile := by
  rw [(perform_run settings world).2]
  cases hsaved : savedFile? settings (inputIn settings world.storage) with
  | none => rfl
  | some file =>
    obtain ⟨path, data⟩ := file
    have hne := h.target_ne_inputFile hother (target_of_savedFile? hsaved)
    exact Memory.fetch_save_ne world.storage data hne

theorem inputIn_perform_run {settings other : Settings} (h : settings.Resolved)
    (hother : other.Resolved) (world : World Memory) :
    inputIn other (perform (run settings) world).2.storage = inputIn other world.storage := by
  have hfetch := fetch_perform_run h hother world
  refine Option.ext fun data => ?_
  have hiff : ∀ store : Memory, inputIn other store = some data ↔
      store.fetch other.inputFile = .ok data := fun _ => Memory.fetch_eq_ok_iff.symm
  rw [hiff, hiff, hfetch]

theorem keep_keep (store : Memory) (file : Option (String × Bytes)) :
    keep (keep store file) file = keep store file := by
  cases file with
  | none => rfl
  | some file => exact Memory.save_save store file.1 file.2

/-- **All or nothing.**  A run that writes has added the text of the records to the store and
nothing else, and it writes whenever the input reads; a run that shows a table, fails or crashes
leaves the store as it was.  The input stays, and a second run comes to the same. -/
theorem run_all_or_nothing {arguments : Arguments} {file : FileSettings} {settings : Settings}
    (h : Settings.resolve arguments file = .ok settings) {world after : World Memory}
    {result : Except Stop Outcome} (hrun : perform (run settings) world = (result, after)) :
    (∀ path count, result = .ok (.written path count) →
      settings.target = .file path ∧
      ∃ data records, world.storage.fetch settings.inputFile = .ok data ∧
        Csv.read settings.csv data = .ok records ∧ count = records.length ∧
        after.storage = world.storage.save path (Utf8.encode
          (Json.recordsText (if settings.pretty then Json.pretty else Json.compact)
            (Column.applyAll (Column.specsOf settings.columns) records)))) ∧
    (∀ path data records, settings.target = .file path →
      world.storage.fetch settings.inputFile = .ok data →
      Csv.read settings.csv data = .ok records →
      result = .ok (.written path records.length)) ∧
    (settings.target = .table → after.storage = world.storage) ∧
    (∀ stop, result = .error stop → after.storage = world.storage) ∧
    after.storage.fetch settings.inputFile = world.storage.fetch settings.inputFile ∧
    ∀ later : World Memory, later.storage = after.storage →
      (perform (run settings) later).1 = result ∧
        (perform (run settings) later).2.storage = after.storage := by
  have hresolved : settings.Resolved := ⟨arguments, file, h⟩
  have hresult : result = outcomeOf settings (inputIn settings world.storage) := by
    rw [← (perform_run settings world).1, hrun]
  have hstorage : after.storage =
      keep world.storage (savedFile? settings (inputIn settings world.storage)) := by
    rw [← (perform_run settings world).2, hrun]
  have hinput : inputIn settings after.storage = inputIn settings world.storage := by
    rw [← inputIn_perform_run hresolved hresolved world, hrun]
  refine ⟨?written, ?success, ?table, ?stop, ?input, ?again⟩
  case written =>
    intro path count hwritten
    rw [hresult] at hwritten
    obtain ⟨htarget, records, hrecords, hcount⟩ := outcomeOf_eq_written_iff.mp hwritten
    obtain ⟨data, hfetch, hread⟩ := recordsIn_eq_ok_iff.mp hrecords
    refine ⟨htarget, data, records, hfetch, hread, hcount, ?_⟩
    rw [hstorage, savedFile?_of_records htarget hrecords]
    rfl
  case success =>
    intro path data records htarget hfetch hread
    have hrecords := recordsIn_eq_ok_iff.mpr ⟨data, hfetch, hread⟩
    rw [hresult]
    exact outcomeOf_eq_written_iff.mpr ⟨htarget, records, hrecords, rfl⟩
  case table =>
    intro htarget
    rw [hstorage, savedFile?_of_table _ htarget]
    rfl
  case stop =>
    intro stop hstop
    rw [hresult] at hstop
    rw [hstorage, savedFile?_of_error hstop]
    rfl
  case input =>
    rw [← fetch_perform_run hresolved hresolved world, hrun]
  case again =>
    intro later hlater
    obtain ⟨hsame, hkept⟩ := perform_run settings later
    rw [hlater, hinput] at hsame hkept
    refine ⟨hsame.trans hresult.symm, ?_⟩
    rw [hkept, hstorage, keep_keep]

/-- From `in.csv` to `out.JSON`, on a single line. -/
def compactSettings : Settings :=
  ⟨"in.csv", .file "out.JSON", none, Csv.Options.standard, 10, false⟩

/-- The output file is there already. -/
def worldOfTwoFiles : World Memory :=
  .ofStorage ⟨.ofList [("in.csv", Utf8.encode "a\n1\n"), ("out.JSON", Utf8.encode "[]")]⟩
    fun _ => none

theorem run_all_or_nothing_over_an_old_file :
    Settings.resolve
        { Arguments.ofInput "in.csv" with outputFile := some "out.JSON", compact := true }
        FileSettings.empty = .ok compactSettings ∧
    ∃ after, perform (run compactSettings) worldOfTwoFiles =
        (.ok (.written "out.JSON" 1), after) ∧
      after.storage = ⟨.ofList [("in.csv", Utf8.encode "a\n1\n"),
        ("out.JSON", Utf8.encode "[\x7b\"a\":\"1\"\x7d]")]⟩ ∧
      ∀ later : World Memory, later.storage = after.storage →
        (perform (run compactSettings) later).1 = .ok (.written "out.JSON" 1) ∧
          (perform (run compactSettings) later).2.storage = after.storage := by
  have hresolve : Settings.resolve
      { Arguments.ofInput "in.csv" with outputFile := some "out.JSON", compact := true }
      FileSettings.empty = .ok compactSettings := by rfl
  have hresult : (perform (run compactSettings) worldOfTwoFiles).1 =
      .ok (.written "out.JSON" 1) := by
    rw [(perform_run _ _).1]
    cbv
  have hstorage : (perform (run compactSettings) worldOfTwoFiles).2.storage =
      ⟨.ofList [("in.csv", Utf8.encode "a\n1\n"),
        ("out.JSON", Utf8.encode "[\x7b\"a\":\"1\"\x7d]")]⟩ := by
    rw [(perform_run _ _).2]
    cbv
  have hrun : perform (run compactSettings) worldOfTwoFiles =
      (.ok (.written "out.JSON" 1), (perform (run compactSettings) worldOfTwoFiles).2) :=
    Prod.ext hresult rfl
  obtain ⟨-, -, -, -, -, hagain⟩ := run_all_or_nothing hresolve hrun
  exact ⟨hresolve, _, hrun, hstorage, hagain⟩

end Conversion

end Rowcast
