import Mathlib
import Rowcast.Proofs.Settings.File
import Rowcast.Settings.Resolve

/-!
# Which settings a user gets

Each setting has an effective value: what the arguments say, or else what the settings file says, or
else the default.  `Acceptable` is what the effective values must satisfy, and `Follows` says that
settings hold them; `resolve_exact` proves that resolving succeeds for acceptable ones and for no
others, and then gives these settings.

An accepted file has no values of its own that could fail.  So the arguments can be checked alone
(`Arguments.check`), and resolving comes down to this check and one comparison, of the effective
delimiter with the effective quote (`resolve_of_sound`).  Every other failure is one of the
arguments, and it is the same for all accepted files.
-/

namespace Rowcast

/-! ### Effective values -/

/-- What the arguments say, or else what the file says, or else the default. -/
def effective {α : Type} (argument file : Option α) (default : α) : α :=
  match argument, file with
  | some value, _ => value
  | none, some value => value
  | none, none => default

theorem getD_or {α : Type} (argument file : Option α) (default : α) :
    (argument.or file).getD default = effective argument file default := by
  cases argument <;> cases file <;> rfl

def effectiveDelimiter (arguments : Arguments) (file : FileSettings) : Char :=
  effective arguments.delimiter (FileSettings.spelled? file.delimiter) ','

def effectiveQuote (arguments : Arguments) (file : FileSettings) : Char :=
  effective arguments.quote (FileSettings.spelled? file.quote) '"'

def effectiveRows (arguments : Arguments) (file : FileSettings) : Nat :=
  effective arguments.maxTableRows file.maxTableRows 10

def Arguments.target? (arguments : Arguments) : Option Target :=
  if arguments.outputTable then some .table else arguments.outputFile.map .file

structure Acceptable (arguments : Arguments) (file : FileSettings) : Prop where
  target : arguments.target?.isSome
  delimiter : IsMark (effectiveDelimiter arguments file)
  quote : IsMark (effectiveQuote arguments file)
  differ : effectiveDelimiter arguments file ≠ effectiveQuote arguments file
  input : UsablePath arguments.inputFile "csv"
  output : ∀ path, arguments.target? = some (.file path) → UsablePath path "json"
  rows : 1 ≤ effectiveRows arguments file

structure Settings.Follows (settings : Settings) (arguments : Arguments) (file : FileSettings) :
    Prop where
  inputFile : settings.inputFile = arguments.inputFile
  target : some settings.target = arguments.target?
  columns : settings.columns = arguments.columns.or file.definition
  delimiter : settings.csv.delimiter.toNat = (effectiveDelimiter arguments file).toNat
  quote : settings.csv.quote.toNat = (effectiveQuote arguments file).toNat
  ignoreEmpty : settings.csv.ignoreEmpty = effective arguments.ignoreEmpty file.ignoreEmpty true
  emptyAsNull : settings.csv.emptyAsNull = true ↔
    arguments.emptyAsNull = true ∨ file.emptyAsNull = some true
  trim : settings.csv.trim = true ↔ arguments.trim = true ∨ file.trim = some true
  maxTableRows : settings.maxTableRows = effectiveRows arguments file
  pretty : settings.pretty = true ↔ arguments.compact = false ∧ file.pretty ≠ some false

/-! ### The arguments alone -/

/-- The number of rows that the arguments ask for is positive. -/
def Arguments.checkRows : Option Nat → Except Failure Unit
  | none => .ok ()
  | some rows => Check.atLeast "max-table-rows" 1 rows

/-- The check of what the arguments say, whatever a file says; it gives the target. -/
def Arguments.check (arguments : Arguments) : Except Failure Target := do
  let target ← arguments.target
  FileSettings.checkByte "delimiter" arguments.delimiter
  FileSettings.checkByte "quote" arguments.quote
  Check.path "input-file" arguments.inputFile
  Check.extension arguments.inputFile "csv"
  Settings.checkTarget target
  Arguments.checkRows arguments.maxTableRows
  return target

theorem Settings.checkTarget_eq_ok_iff {target : Target} :
    checkTarget target = .ok () ↔ ∀ path, target = .file path → UsablePath path "json" := by
  cases target with
  | table => simp [checkTarget]
  | file path =>
    rw [checkTarget, bind_unit_eq_ok_iff, Check.usablePath_iff]
    simp

theorem Arguments.checkRows_eq_ok_iff {rows? : Option Nat} :
    checkRows rows? = .ok () ↔ ∀ rows ∈ rows?, 1 ≤ rows := by
  cases rows? with
  | none => simp [checkRows]
  | some rows => simpa [checkRows] using Check.atLeast_eq_ok_iff

theorem Arguments.target_eq_ok_iff {arguments : Arguments} {target : Target} :
    arguments.target = .ok target ↔ arguments.target? = some target := by
  unfold Arguments.target Arguments.target?
  cases arguments.outputTable <;> cases arguments.outputFile <;> simp

theorem Arguments.check_eq_ok_iff {arguments : Arguments} {target : Target} :
    arguments.check = .ok target ↔
      arguments.target? = some target ∧ (∀ c ∈ arguments.delimiter, IsMark c) ∧
        (∀ c ∈ arguments.quote, IsMark c) ∧ UsablePath arguments.inputFile "csv" ∧
        (∀ path, target = .file path → UsablePath path "json") ∧
        ∀ rows ∈ arguments.maxTableRows, 1 ≤ rows := by
  rw [← Check.usablePath_iff "input-file", Arguments.check, bind_eq_ok_iff]
  simp only [target_eq_ok_iff, bind_unit_eq_ok_iff, FileSettings.checkByte_eq_ok_iff,
    Settings.checkTarget_eq_ok_iff, checkRows_eq_ok_iff]
  constructor
  · rintro ⟨found, htarget, hdelimiter, hquote, hpath, hextension, houtput, hrows, hfound⟩
    obtain rfl := Except.ok.inj hfound
    exact ⟨htarget, hdelimiter, hquote, ⟨hpath, hextension⟩, houtput, hrows⟩
  · rintro ⟨htarget, hdelimiter, hquote, ⟨hpath, hextension⟩, houtput, hrows⟩
    exact ⟨target, htarget, hdelimiter, hquote, hpath, hextension, houtput, hrows, rfl⟩

namespace Settings

/-! ### Resolving -/

theorem isMark_effective {argument file : Option Char} {default : Char}
    (hargument : ∀ c ∈ argument, IsMark c) (hfile : ∀ c ∈ file, IsMark c)
    (hdefault : IsMark default) : IsMark (effective argument file default) := by
  cases argument with
  | some c => exact hargument c rfl
  | none =>
    cases file with
    | some c => exact hfile c rfl
    | none => exact hdefault

theorem byte_eq_map (field : String) (default : Char) (argument : Option Char) {file : Option Char}
    (hfile : ∀ c ∈ file, IsMark c) :
    byte field (UInt8.ofNat default.toNat) argument file =
      (FileSettings.checkByte field argument).map fun _ =>
        UInt8.ofNat (effective argument file default).toNat := by
  cases argument with
  | none =>
    cases file with
    | none => rfl
    | some c => exact Check.byte_eq_ok_iff.mpr ⟨hfile c rfl, rfl⟩
  | some c =>
    simp only [byte, Option.some_or, FileSettings.checkByte, Check.byte]
    split <;> rfl

theorem atLeast_effective (argument : Option Nat) {file : Option Nat}
    (hfile : ∀ rows ∈ file, 1 ≤ rows) :
    Check.atLeast "max-table-rows" 1 (effective argument file 10) =
      Arguments.checkRows argument := by
  cases argument with
  | some rows => rfl
  | none =>
    refine Check.atLeast_eq_ok_iff.mpr ?_
    cases file with
    | none => decide
    | some rows => exact hfile rows rfl

theorem check_merge (arguments : Arguments) (file : FileSettings) (target : Target)
    (delimiter quote : UInt8) :
    (merge arguments file target delimiter quote).check = (do
      Check.path "input-file" arguments.inputFile
      Check.extension arguments.inputFile "csv"
      checkTarget target
      Check.atLeast "max-table-rows" 1 (effectiveRows arguments file)
      if delimiter = quote then .error .sameDelimiterAndQuote else .ok ()) := by
  rw [effectiveRows, ← getD_or]
  rfl

/-- **Resolving is the check of the arguments and one comparison.** -/
theorem resolve_of_sound (arguments : Arguments) {file : FileSettings} (h : file.Sound) :
    resolve arguments file = arguments.check >>= fun target =>
      if effectiveDelimiter arguments file = effectiveQuote arguments file then
        .error .sameDelimiterAndQuote
      else
        .ok (merge arguments file target (UInt8.ofNat (effectiveDelimiter arguments file).toNat)
          (UInt8.ofNat (effectiveQuote arguments file).toNat)) := by
  have hdelimiter : byte "delimiter" Csv.Options.standard.delimiter arguments.delimiter
      (FileSettings.spelled? file.delimiter) =
        (FileSettings.checkByte "delimiter" arguments.delimiter).map fun _ =>
          UInt8.ofNat (effectiveDelimiter arguments file).toNat :=
    byte_eq_map "delimiter" ',' arguments.delimiter h.isMark_delimiter
  have hquote : byte "quote" Csv.Options.standard.quote arguments.quote
      (FileSettings.spelled? file.quote) =
        (FileSettings.checkByte "quote" arguments.quote).map fun _ =>
          UInt8.ofNat (effectiveQuote arguments file).toNat :=
    byte_eq_map "quote" '"' arguments.quote h.isMark_quote
  have hrows : Check.atLeast "max-table-rows" 1 (effectiveRows arguments file) = _ :=
    atLeast_effective arguments.maxTableRows h.one_le_rows
  rw [resolve, Arguments.check, bind_assoc]
  refine bind_congr fun target => ?_
  simp only [h.delimiter, h.quote, ok_bind, hdelimiter, hquote, bind_assoc, check_merge, hrows]
  cases hd : FileSettings.checkByte "delimiter" arguments.delimiter with
  | error failure => rfl
  | ok _ =>
    cases hq : FileSettings.checkByte "quote" arguments.quote with
    | error failure => rfl
    | ok _ =>
      have hdmark : IsMark (effectiveDelimiter arguments file) :=
        isMark_effective (FileSettings.checkByte_eq_ok_iff.mp hd) h.isMark_delimiter (by decide)
      have hqmark : IsMark (effectiveQuote arguments file) :=
        isMark_effective (FileSettings.checkByte_eq_ok_iff.mp hq) h.isMark_quote (by decide)
      simp only [Except.map, ok_bind, pure_bind]
      refine bind_congr fun _ => bind_congr fun _ => bind_congr fun _ => bind_congr fun _ => ?_
      simp only [ofNat_eq_iff_of_isMark hdmark hqmark]
      split <;> rfl

/-! ### Effective settings -/

variable {arguments : Arguments} {file : FileSettings}

theorem acceptable_iff (h : file.Sound) : Acceptable arguments file ↔
    (∃ target, arguments.check = .ok target) ∧
      effectiveDelimiter arguments file ≠ effectiveQuote arguments file := by
  simp only [Arguments.check_eq_ok_iff]
  constructor
  · intro hacceptable
    obtain ⟨target, htarget⟩ := Option.isSome_iff_exists.mp hacceptable.target
    refine ⟨⟨target, htarget, ?_, ?_, hacceptable.input, ?_, ?_⟩, hacceptable.differ⟩
    · rintro c hc
      have hmark := hacceptable.delimiter
      rw [effectiveDelimiter, Option.mem_def.mp hc] at hmark
      exact hmark
    · rintro c hc
      have hmark := hacceptable.quote
      rw [effectiveQuote, Option.mem_def.mp hc] at hmark
      exact hmark
    · rintro path rfl
      exact hacceptable.output path htarget
    · rintro rows hrows
      have hpositive := hacceptable.rows
      rw [effectiveRows, Option.mem_def.mp hrows] at hpositive
      exact hpositive
  · rintro ⟨⟨target, htarget, hdelimiter, hquote, hinput, houtput, hrows⟩, hdiffer⟩
    refine ⟨by rw [htarget]; rfl, isMark_effective hdelimiter h.isMark_delimiter (by decide),
      isMark_effective hquote h.isMark_quote (by decide), hdiffer, hinput, ?_, ?_⟩
    · intro path hpath
      rw [htarget] at hpath
      exact houtput path (Option.some.inj hpath)
    · rw [← Check.atLeast_eq_ok_iff, effectiveRows, atLeast_effective _ h.one_le_rows,
        Arguments.checkRows_eq_ok_iff]
      exact hrows

theorem follows_merge {target : Target} (htarget : arguments.target? = some target)
    (hdelimiter : IsMark (effectiveDelimiter arguments file))
    (hquote : IsMark (effectiveQuote arguments file)) :
    (merge arguments file target (UInt8.ofNat (effectiveDelimiter arguments file).toNat)
      (UInt8.ofNat (effectiveQuote arguments file).toNat)).Follows arguments file where
  inputFile := rfl
  target := htarget.symm
  columns := rfl
  delimiter := toNat_ofNat_of_isMark hdelimiter
  quote := toNat_ofNat_of_isMark hquote
  ignoreEmpty := getD_or _ _ _
  emptyAsNull := by
    simp only [merge]
    cases file.emptyAsNull <;> simp
  trim := by
    simp only [merge]
    cases file.trim <;> simp
  maxTableRows := getD_or _ _ _
  pretty := by
    simp only [merge]
    cases file.pretty <;> simp

/-- **Which settings a user gets.**  Resolving succeeds just where the effective values are
acceptable, and the settings are these values.  A file that has been accepted can only make it fail
where the effective delimiter is the effective quote; any other failure comes with any such file. -/
theorem resolve_exact (arguments : Arguments) {file : FileSettings} (h : file.Accepted) :
    ((∃ settings, resolve arguments file = .ok settings) ↔ Acceptable arguments file) ∧
    (∀ settings, resolve arguments file = .ok settings → settings.Follows arguments file) ∧
    (∀ failure, resolve arguments file = .error failure →
      (failure = .sameDelimiterAndQuote ∧
        effectiveDelimiter arguments file = effectiveQuote arguments file) ∨
      ∀ other : FileSettings, other.Accepted → resolve arguments other = .error failure) := by
  have hsound := h.sound
  have hresolve := resolve_of_sound arguments hsound
  rw [acceptable_iff hsound]
  cases hcheck : arguments.check with
  | error failure =>
    rw [hcheck, error_bind] at hresolve
    refine ⟨by simp [hresolve], by simp [hresolve], ?_⟩
    intro found hfound
    refine .inr fun other hother => ?_
    rw [resolve_of_sound arguments hother.sound, hcheck, error_bind, ← hresolve, hfound]
  | ok target =>
    rw [hcheck, ok_bind] at hresolve
    by_cases hsame : effectiveDelimiter arguments file = effectiveQuote arguments file
    · rw [if_pos hsame] at hresolve
      refine ⟨by simp [hresolve, hsame], by simp [hresolve], ?_⟩
      intro found hfound
      rw [hresolve] at hfound
      exact .inl ⟨(Except.error.inj hfound).symm, hsame⟩
    · rw [if_neg hsame] at hresolve
      have hacceptable := (acceptable_iff hsound).mpr ⟨⟨target, hcheck⟩, hsame⟩
      refine ⟨by simp [hresolve, hsame], ?_, by simp [hresolve]⟩
      intro settings hok
      rw [← Except.ok.inj (hresolve.symm.trans hok)]
      exact follows_merge (Arguments.check_eq_ok_iff.mp hcheck).1 hacceptable.delimiter
        hacceptable.quote

/-- A text without a byte order mark is read from its first character on. -/
theorem document?_of_head {text : String} (h : text.toList.head? ≠ some Toml.byteOrderMark) :
    Toml.document? text = Toml.lines? (text.toList.length + 1) ⟨[], []⟩ text.toList := by
  simp [Toml.document?, h]

/-- A tabulator between the fields, and short tables. -/
def tabText : String := "[csv]\ndelimiter='\\t'\n[output]\nmax_table_rows=3\n"

def tabFile : FileSettings :=
  { FileSettings.empty with delimiter := some "\\t", maxTableRows := some 3 }

theorem read_tabText : FileSettings.read .empty tabText = .ok tabFile := by
  have hsubstitute : Environment.empty.substitute tabText = tabText := by cbv
  rw [FileSettings.read, hsubstitute, document?_of_head (by decide)]
  cbv

/-- A table of an input whose name ends in capital letters. -/
def tableArguments : Arguments := { Arguments.ofInput "in.CSV" with outputTable := true }

theorem resolve_exact_between_tabs :
    tabFile.Accepted ∧ Acceptable tableArguments tabFile ∧
    (∃ settings, resolve tableArguments tabFile = .ok settings ∧
      settings.Follows tableArguments tabFile) ∧
    resolve { tableArguments with quote := some '\t' } tabFile =
      .error .sameDelimiterAndQuote := by
  have haccepted : tabFile.Accepted := .inr ⟨.empty, tabText, read_tabText⟩
  have hinput : UsablePath tableArguments.inputFile "csv" := by
    refine ⟨⟨'i', ?_, by decide⟩, ?_, "CSV", by decide +kernel, by decide⟩ <;>
      simp [tableArguments, Arguments.ofInput]
  have hacceptable : Acceptable tableArguments tabFile :=
    ⟨rfl, by decide, by decide, by decide, hinput, by simp [Arguments.target?, tableArguments],
      by decide⟩
  obtain ⟨hiff, hfollows, -⟩ := resolve_exact tableArguments haccepted
  obtain ⟨settings, hok⟩ := hiff.mpr hacceptable
  exact ⟨haccepted, hacceptable, ⟨settings, hok, hfollows settings hok⟩, by decide +kernel⟩

end Settings

end Rowcast
