import Mathlib
import Rowcast.Proofs.Settings.File
import Rowcast.Settings.Resolve

/-!
# What arguments take the place of

Two settings files agree beyond the arguments when they differ only in options that the arguments
give themselves.  Of these options the values are never used, but two of them are read: the text of
the delimiter and that of the quote, each of which has to spell one character
(`Settings.StopsAt`).  So resolving gives the same result for both files exactly where it stops at
such a text for both or for neither.  An accepted file has no text to stop at.

The proof follows the stages of `resolve`.  A stage that does not stop at a text gives the same byte
for both files (`byteOf_congr`), and the stages after it see the same settings (`merge_congr`).  A
failure at a text says that it is not one character, and nothing else fails in this way
(`NeverDenies`).
-/

namespace Rowcast

/-- The files agree in all that the arguments leave to them. -/
structure FileSettings.AgreeBeyond (arguments : Arguments) (file other : FileSettings) : Prop where
  delimiter : arguments.delimiter = none → file.delimiter = other.delimiter
  quote : arguments.quote = none → file.quote = other.quote
  ignoreEmpty : arguments.ignoreEmpty = none → file.ignoreEmpty = other.ignoreEmpty
  emptyAsNull : arguments.emptyAsNull = false → file.emptyAsNull = other.emptyAsNull
  trim : arguments.trim = false → file.trim = other.trim
  maxTableRows : arguments.maxTableRows = none → file.maxTableRows = other.maxTableRows
  pretty : arguments.compact = false → file.pretty = other.pretty
  definition : arguments.columns = none → file.definition = other.definition

/-! ### Texts that are not one character -/

theorem FileSettings.eq_of_character_eq_error {field : String} {text? : Option String}
    {failure : Failure} (h : character field text? = .error failure) :
    ∃ text, failure = .invalidValue field text .notOneCharacter := by
  cases text? with
  | none => cases h
  | some text =>
    simp only [character, Check.character] at h
    split at h
    · cases h
    · exact ⟨_, (Except.error.inj h).symm⟩

/-- Nothing fails here for a text that is not one character. -/
def NeverDenies {α : Type} (x : Except Failure α) : Prop :=
  ∀ field text, x ≠ .error (.invalidValue field text .notOneCharacter)

theorem NeverDenies.ok {α : Type} (a : α) : NeverDenies (.ok a) := nofun

theorem NeverDenies.bind {α β : Type} {x : Except Failure α} {f : α → Except Failure β}
    (hx : NeverDenies x) (hf : ∀ a, NeverDenies (f a)) : NeverDenies (x >>= f) := by
  intro field text h
  rcases bind_eq_error_iff.mp h with h | ⟨a, -, h⟩
  · exact hx field text h
  · exact hf a field text h

namespace Check

theorem neverDenies_path (field path : String) : NeverDenies (Check.path field path) := by
  intro _ _ h
  unfold Check.path at h
  split_ifs at h <;> cases h

theorem neverDenies_extension (path extension : String) :
    NeverDenies (Check.extension path extension) := by
  intro _ _ h
  unfold Check.extension at h
  split_ifs at h
  cases h

theorem neverDenies_atLeast (field : String) (least value : Nat) :
    NeverDenies (Check.atLeast field least value) := by
  intro _ _ h
  unfold Check.atLeast at h
  split_ifs at h
  cases h

theorem neverDenies_byte (field : String) (c : Char) : NeverDenies (Check.byte field c) := by
  intro _ _ h
  unfold Check.byte at h
  split_ifs at h
  cases h

end Check

namespace Settings

variable {arguments : Arguments} {file other : FileSettings} {failure : Failure}

theorem neverDenies_byte (field : String) (default : UInt8) (argument read : Option Char) :
    NeverDenies (byte field default argument read) := by
  unfold byte
  cases argument.or read with
  | none => exact .ok default
  | some c => exact Check.neverDenies_byte field c

theorem neverDenies_checkTarget (target : Target) : NeverDenies (checkTarget target) := by
  cases target with
  | table => exact .ok ()
  | file path =>
    exact (Check.neverDenies_path _ _).bind fun _ => Check.neverDenies_extension _ _

theorem neverDenies_check (settings : Settings) : NeverDenies settings.check := by
  have hdiffer : NeverDenies (if settings.csv.delimiter = settings.csv.quote then
      .error .sameDelimiterAndQuote else .ok () : Except Failure Unit) := by
    intro _ _ h
    split_ifs at h
    cases h
  exact (Check.neverDenies_path _ _).bind fun _ => (Check.neverDenies_extension _ _).bind fun _ =>
    (neverDenies_checkTarget _).bind fun _ => (Check.neverDenies_atLeast _ _ _).bind fun _ => hdiffer

/-! ### The stages of resolving -/

def byteOf (field : String) (default : UInt8) (argument : Option Char)
    (read : Except Failure (Option Char)) : Except Failure UInt8 :=
  read >>= byte field default argument

def delimiterByte (arguments : Arguments) (file : FileSettings) : Except Failure UInt8 :=
  byteOf "delimiter" Csv.Options.standard.delimiter arguments.delimiter file.delimiterCharacter

def quoteByte (arguments : Arguments) (file : FileSettings) : Except Failure UInt8 :=
  byteOf "quote" Csv.Options.standard.quote arguments.quote file.quoteCharacter

def checked (settings : Settings) : Except Failure Settings := do
  settings.check
  return settings

theorem resolve_eq_stages (arguments : Arguments) (file : FileSettings) :
    resolve arguments file = (do
      let target ← arguments.target
      let delimiter ← delimiterByte arguments file
      let quote ← quoteByte arguments file
      checked (merge arguments file target delimiter quote)) := by
  simp only [resolve, delimiterByte, quoteByte, byteOf, checked, bind_assoc]

/-- Resolving stops at a text of the file that spells no character, although an argument takes its
place. -/
inductive StopsAt (arguments : Arguments) (file : FileSettings) : Failure → Prop
  | delimiter {target : Target} {failure : Failure} (htarget : arguments.target = .ok target)
      (hgiven : arguments.delimiter.isSome) (hread : file.delimiterCharacter = .error failure) :
      StopsAt arguments file failure
  | quote {target : Target} {b : UInt8} {failure : Failure}
      (htarget : arguments.target = .ok target) (hdelimiter : delimiterByte arguments file = .ok b)
      (hgiven : arguments.quote.isSome) (hread : file.quoteCharacter = .error failure) :
      StopsAt arguments file failure

theorem resolve_of_stopsAt (h : StopsAt arguments file failure) :
    resolve arguments file = .error failure := by
  rw [resolve_eq_stages]
  cases h with
  | delimiter htarget hgiven hread =>
    rw [htarget, ok_bind, delimiterByte, byteOf, hread, error_bind, error_bind]
  | quote htarget hdelimiter hgiven hread =>
    rw [htarget, ok_bind, hdelimiter, ok_bind, quoteByte, byteOf, hread, error_bind, error_bind]

/-- A text that an argument takes the place of has no say once it is read. -/
theorem byteOf_congr (field : String) (default : UInt8) {argument : Option Char}
    {read other : Except Failure (Option Char)} (hagree : argument = none → read = other)
    (hread : argument.isSome → ∃ c, read = .ok c) (hother : argument.isSome → ∃ c, other = .ok c) :
    byteOf field default argument read = byteOf field default argument other := by
  cases argument with
  | none => rw [hagree rfl]
  | some c =>
    obtain ⟨d, rfl⟩ := hread rfl
    obtain ⟨e, rfl⟩ := hother rfl
    rfl

theorem or_congr {α : Type} {argument read other : Option α} (h : argument = none → read = other) :
    argument.or read = argument.or other := by
  cases argument with
  | none => rw [h rfl]
  | some _ => rfl

theorem flag_congr {flag read other : Bool} (h : flag = false → read = other) :
    (flag || read) = (flag || other) := by
  cases flag with
  | false => rw [h rfl]
  | true => rfl

theorem merge_congr (h : file.AgreeBeyond arguments other) (target : Target)
    (delimiter quote : UInt8) :
    merge arguments file target delimiter quote = merge arguments other target delimiter quote := by
  have hnull := flag_congr fun hflag => congrArg (Option.getD · false) (h.emptyAsNull hflag)
  have htrim := flag_congr fun hflag => congrArg (Option.getD · false) (h.trim hflag)
  -- `compact` takes the place of `pretty` by turning it off.
  have hpretty := flag_congr fun hflag => congrArg (! Option.getD · true) (h.pretty hflag)
  have hnot : ∀ a b : Bool, (!a && b) = !(a || !b) := by decide
  rw [merge, merge, or_congr h.definition, or_congr h.ignoreEmpty, or_congr h.maxTableRows, hnull,
    htrim, hnot, hnot, hpretty]

/-- Where resolving stops at no text, the values that are replaced make no difference. -/
theorem resolve_congr (h : file.AgreeBeyond arguments other)
    (hfile : ∀ failure, ¬ StopsAt arguments file failure)
    (hother : ∀ failure, ¬ StopsAt arguments other failure) :
    resolve arguments file = resolve arguments other := by
  have hok : ∀ {α : Type} {x : Except Failure α}, (∀ failure, x ≠ .error failure) →
      ∃ a, x = .ok a := by
    intro α x hx
    cases x with
    | error failure => exact absurd rfl (hx failure)
    | ok a => exact ⟨a, rfl⟩
  rw [resolve_eq_stages, resolve_eq_stages]
  cases htarget : arguments.target with
  | error failure => rfl
  | ok target =>
    have hdelimiter : delimiterByte arguments file = delimiterByte arguments other := by
      refine byteOf_congr _ _ (fun hnone => ?_) (fun hgiven => hok fun failure hread => ?_)
        fun hgiven => hok fun failure hread => ?_
      · rw [FileSettings.delimiterCharacter, h.delimiter hnone, FileSettings.delimiterCharacter]
      · exact hfile failure (.delimiter htarget hgiven hread)
      · exact hother failure (.delimiter htarget hgiven hread)
    rw [ok_bind, ok_bind, hdelimiter]
    cases hbyte : delimiterByte arguments other with
    | error failure => rfl
    | ok b =>
      have hquote : quoteByte arguments file = quoteByte arguments other := by
        refine byteOf_congr _ _ (fun hnone => ?_) (fun hgiven => hok fun failure hread => ?_)
          fun hgiven => hok fun failure hread => ?_
        · rw [FileSettings.quoteCharacter, h.quote hnone, FileSettings.quoteCharacter]
        · exact hfile failure (.quote htarget (hdelimiter.trans hbyte) hgiven hread)
        · exact hother failure (.quote htarget hbyte hgiven hread)
      rw [ok_bind, ok_bind, hquote]
      simp only [merge_congr h]

/-- Only where the two texts are read does resolving fail for a text that is not one character. -/
theorem read_of_resolve {target : Target} {field text : String}
    (htarget : arguments.target = .ok target)
    (h : resolve arguments file = .error (.invalidValue field text .notOneCharacter)) :
    file.delimiterCharacter = .error (.invalidValue field text .notOneCharacter) ∨
      ∃ b, delimiterByte arguments file = .ok b ∧
        file.quoteCharacter = .error (.invalidValue field text .notOneCharacter) := by
  have hchecked (settings : Settings) : NeverDenies (checked settings) :=
    (neverDenies_check settings).bind fun _ => .ok settings
  rw [resolve_eq_stages, htarget, ok_bind] at h
  rcases bind_eq_error_iff.mp h with h | ⟨b, hbyte, h⟩
  · rcases bind_eq_error_iff.mp h with h | ⟨_, -, h⟩
    · exact .inl h
    · exact absurd h (neverDenies_byte _ _ _ _ _ _)
  rcases bind_eq_error_iff.mp h with h | ⟨_, -, h⟩
  · rcases bind_eq_error_iff.mp h with h | ⟨_, -, h⟩
    · exact .inr ⟨b, hbyte, h⟩
    · exact absurd h (neverDenies_byte _ _ _ _ _ _)
  · exact absurd h (hchecked _ _ _)

/-- A failure at a text of one file is not met by chance with the other file. -/
theorem stopsAt_of_resolve (hstop : StopsAt arguments file failure)
    (h : resolve arguments other = .error failure) : StopsAt arguments other failure := by
  cases hstop with
  | delimiter htarget hgiven hread =>
    obtain ⟨text, rfl⟩ := FileSettings.eq_of_character_eq_error hread
    rcases read_of_resolve htarget h with hother | ⟨b, -, hother⟩
    · exact .delimiter htarget hgiven hother
    · obtain ⟨_, heq⟩ := FileSettings.eq_of_character_eq_error hother
      simp at heq
  | quote htarget hbyte hgiven hread =>
    obtain ⟨text, rfl⟩ := FileSettings.eq_of_character_eq_error hread
    rcases read_of_resolve htarget h with hother | ⟨b, hbyte, hother⟩
    · obtain ⟨_, heq⟩ := FileSettings.eq_of_character_eq_error hother
      simp at heq
    · exact .quote htarget hbyte hgiven hother

theorem not_stopsAt_of_sound (h : file.Sound) : ¬ StopsAt arguments file failure := by
  intro hstop
  cases hstop with
  | delimiter htarget hgiven hread =>
    rw [h.delimiter] at hread
    cases hread
  | quote htarget hbyte hgiven hread =>
    rw [h.quote] at hread
    cases hread

/-- **What the arguments give themselves is not taken from the file, but it is read.**  Files that
agree beyond the arguments have the same result exactly where resolving stops at a replaced text of
both or of neither; where it stops, this is the failure.  It does not stop at texts of accepted
files. -/
theorem resolve_eq_iff_stopsAt (h : file.AgreeBeyond arguments other) :
    (resolve arguments file = resolve arguments other ↔
      ∀ failure, StopsAt arguments file failure ↔ StopsAt arguments other failure) ∧
    (∀ failure, StopsAt arguments file failure → resolve arguments file = .error failure) ∧
    (file.Accepted → other.Accepted → resolve arguments file = resolve arguments other) := by
  refine ⟨⟨fun heq failure => ⟨fun hstop => ?_, fun hstop => ?_⟩, fun hiff => ?_⟩,
    fun _ => resolve_of_stopsAt, fun hfile hother => ?_⟩
  · exact stopsAt_of_resolve hstop (heq ▸ resolve_of_stopsAt hstop)
  · exact stopsAt_of_resolve hstop (heq ▸ resolve_of_stopsAt hstop)
  · by_cases hstop : ∃ failure, StopsAt arguments file failure
    · obtain ⟨failure, hstop⟩ := hstop
      rw [resolve_of_stopsAt hstop, resolve_of_stopsAt ((hiff failure).mp hstop)]
    · rw [not_exists] at hstop
      exact resolve_congr h hstop fun failure hother => hstop failure ((hiff failure).mpr hother)
  · exact resolve_congr h (fun _ => not_stopsAt_of_sound hfile.sound)
      fun _ => not_stopsAt_of_sound hother.sound

def semicolonArguments : Arguments :=
  { Arguments.ofInput "data.csv" with outputFile := some "out.json", delimiter := some ';' }

def twoCharacterFile : FileSettings := { FileSettings.empty with delimiter := some ";;" }

theorem resolve_eq_iff_stopsAt_at_two_characters :
    twoCharacterFile.AgreeBeyond semicolonArguments .empty ∧
    StopsAt semicolonArguments twoCharacterFile
      (.invalidValue "csv.delimiter" ";;" .notOneCharacter) ∧
    resolve semicolonArguments twoCharacterFile =
      .error (.invalidValue "csv.delimiter" ";;" .notOneCharacter) ∧
    resolve semicolonArguments twoCharacterFile ≠ resolve semicolonArguments .empty ∧
    ∃ settings, resolve semicolonArguments .empty = .ok settings := by
  have hagree : twoCharacterFile.AgreeBeyond semicolonArguments .empty :=
    ⟨nofun, fun _ => rfl, fun _ => rfl, fun _ => rfl, fun _ => rfl, fun _ => rfl, fun _ => rfl,
      fun _ => rfl⟩
  have hstop : StopsAt semicolonArguments twoCharacterFile
      (.invalidValue "csv.delimiter" ";;" .notOneCharacter) := .delimiter rfl rfl rfl
  obtain ⟨hiff, hfailure, -⟩ := resolve_eq_iff_stopsAt hagree
  refine ⟨hagree, hstop, hfailure _ hstop, fun heq => ?_, ?_⟩
  · have hempty : FileSettings.empty.Accepted := .inl rfl
    exact not_stopsAt_of_sound hempty.sound ((hiff.mp heq _).mp hstop)
  · cases hresolve : resolve semicolonArguments .empty with
    | ok settings => exact ⟨settings, rfl⟩
    | error failure =>
      have hok : (resolve semicolonArguments .empty).isOk = true := by decide +kernel
      rw [hresolve] at hok
      cases hok

end Settings

end Rowcast
