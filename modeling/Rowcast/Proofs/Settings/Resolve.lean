import Mathlib
import Rowcast.Proofs.Settings.Check
import Rowcast.Settings.Resolve

/-!
# What resolved settings promise

Settings leave `resolve` only after `check`, so whatever the arguments and the settings file were,
the input file ends in `.csv` and an output file in `.json`, in any case of their letters.  A path
has one extension at most (`Path.eq_of_hasExtension`), hence the two are different paths:
`Resolved.target_ne_inputFile` says this of any two settings, also of different conversions.
-/

namespace Rowcast

theorem Path.eq_of_hasExtension {path a b : String} (ha : Path.hasExtension path a = true)
    (hb : Path.hasExtension path b = true) :
    Text.lowerAscii a.toList = Text.lowerAscii b.toList := by
  unfold Path.hasExtension at ha hb
  cases h : Path.extension? path with
  | none => simp [h] at ha
  | some found =>
    simp only [h, Text.eqIgnoringAsciiCase, beq_iff_eq] at ha hb
    exact ha.symm.trans hb

/-- A path does not end in `.csv` and in `.json`. -/
theorem Path.not_hasExtension_json {path : String} (h : Path.hasExtension path "csv" = true) :
    ¬ Path.hasExtension path "json" = true := by
  intro hjson
  have heq := Path.eq_of_hasExtension h hjson
  exact absurd heq (by decide)

theorem Check.hasExtension_of_extension {path extension : String}
    (h : Check.extension path extension = .ok ()) : Path.hasExtension path extension = true := by
  unfold Check.extension at h
  split at h
  · assumption
  · simp at h

namespace Settings

variable {settings : Settings}

theorem check_of_resolve {arguments : Arguments} {file : FileSettings}
    (h : resolve arguments file = .ok settings) : settings.check = .ok () := by
  unfold resolve at h
  obtain ⟨target, -, h⟩ := bind_eq_ok_iff.mp h
  obtain ⟨delimiterCharacter, -, h⟩ := bind_eq_ok_iff.mp h
  obtain ⟨delimiter, -, h⟩ := bind_eq_ok_iff.mp h
  obtain ⟨quoteCharacter, -, h⟩ := bind_eq_ok_iff.mp h
  obtain ⟨quote, -, h⟩ := bind_eq_ok_iff.mp h
  obtain ⟨checked, hcheck, h⟩ := bind_eq_ok_iff.mp h
  injection h with h
  rw [← h]
  exact hcheck

theorem hasExtension_of_check (h : settings.check = .ok ()) :
    Path.hasExtension settings.inputFile "csv" = true ∧
      ∀ path, settings.target = .file path → Path.hasExtension path "json" = true := by
  unfold check at h
  obtain ⟨_, -, h⟩ := bind_eq_ok_iff.mp h
  obtain ⟨_, hinput, h⟩ := bind_eq_ok_iff.mp h
  obtain ⟨_, htarget, -⟩ := bind_eq_ok_iff.mp h
  refine ⟨Check.hasExtension_of_extension hinput, ?_⟩
  intro path hpath
  rw [hpath] at htarget
  obtain ⟨_, -, houtput⟩ := bind_eq_ok_iff.mp htarget
  exact Check.hasExtension_of_extension houtput

/-- Some arguments and some settings file lead to these settings. -/
def Resolved (settings : Settings) : Prop :=
  ∃ arguments file, resolve arguments file = .ok settings

/-- No conversion writes what another one reads. -/
theorem Resolved.target_ne_inputFile {other : Settings} (h : settings.Resolved)
    (hother : other.Resolved) {path : String} (hpath : settings.target = .file path) :
    other.inputFile ≠ path := by
  obtain ⟨_, _, hresolve⟩ := h
  obtain ⟨_, _, hresolveOther⟩ := hother
  have hcsv := (hasExtension_of_check (check_of_resolve hresolveOther)).1
  have hjson := (hasExtension_of_check (check_of_resolve hresolve)).2 path hpath
  intro heq
  rw [heq] at hcsv
  exact Path.not_hasExtension_json hcsv hjson

end Settings

end Rowcast
