import Mathlib
import Rowcast.Proofs.Settings.Check
import Rowcast.Settings.File

/-!
# What an accepted settings file says

A settings file is accepted when nothing stands in it or when its text is read without a failure.
Reading checks the values, so none of them can fail later: the characters of an accepted file are
those that its texts spell, they can stand between and around fields, and its number of rows is
positive (`Accepted.sound`).
-/

namespace Rowcast

namespace FileSettings

/-- What can be in force as a settings file: nothing, or what was read from a text. -/
def Accepted (file : FileSettings) : Prop :=
  file = .empty ∨ ∃ environment text, FileSettings.read environment text = .ok file

def spelled? (text? : Option String) : Option Char :=
  text?.bind fun text =>
    if text = "\\t" then some '\t'
    else match text.toList with
      | [c] => some c
      | _ => none

/-- No value of the file can fail. -/
structure Sound (file : FileSettings) : Prop where
  delimiter : file.delimiterCharacter = .ok (spelled? file.delimiter)
  quote : file.quoteCharacter = .ok (spelled? file.quote)
  isMark_delimiter : ∀ c ∈ spelled? file.delimiter, IsMark c
  isMark_quote : ∀ c ∈ spelled? file.quote, IsMark c
  one_le_rows : ∀ rows ∈ file.maxTableRows, 1 ≤ rows

theorem eq_spelled?_of_character {field : String} {text? : Option String} {found? : Option Char}
    (h : character field text? = .ok found?) : found? = spelled? text? := by
  cases text? with
  | none => exact (Except.ok.inj h).symm
  | some text =>
    simp only [character, Check.character, Check.spelled] at h
    simp only [spelled?, Option.bind_some]
    by_cases htab : text = "\\t"
    · subst htab
      exact (Except.ok.inj h).symm
    · rw [if_neg htab] at h ⊢
      rcases htext : text.toList with _ | ⟨c, _ | ⟨d, rest⟩⟩ <;> rw [htext] at h
      · simp [Except.map] at h
      · exact (Except.ok.inj h).symm
      · simp [Except.map] at h

theorem checkByte_eq_ok_iff {field : String} {character? : Option Char} :
    checkByte field character? = .ok () ↔ ∀ c ∈ character?, IsMark c := by
  cases character? with
  | none => simp [checkByte]
  | some c =>
    simp only [checkByte, Option.mem_some_iff, forall_eq']
    constructor
    · intro h
      cases hbyte : Check.byte field c with
      | error failure => simp [hbyte, Except.map] at h
      | ok b => exact (Check.byte_eq_ok_iff.mp hbyte).1
    · intro hmark
      rw [Check.byte_eq_ok_iff.mpr ⟨hmark, rfl⟩]
      rfl

theorem sound_of_check {file : FileSettings} (h : file.check = .ok ()) : file.Sound := by
  unfold check at h
  obtain ⟨delimiter?, hdelimiter, h⟩ := bind_eq_ok_iff.mp h
  obtain ⟨_, hdelimiterByte, h⟩ := bind_eq_ok_iff.mp h
  obtain ⟨quote?, hquote, h⟩ := bind_eq_ok_iff.mp h
  obtain ⟨_, hquoteByte, hrows⟩ := bind_eq_ok_iff.mp h
  obtain rfl := eq_spelled?_of_character hdelimiter
  obtain rfl := eq_spelled?_of_character hquote
  refine ⟨hdelimiter, hquote, checkByte_eq_ok_iff.mp hdelimiterByte,
    checkByte_eq_ok_iff.mp hquoteByte, ?_⟩
  intro rows hmem
  rw [Option.mem_def.mp hmem] at hrows
  exact Check.atLeast_eq_ok_iff.mp hrows

/-- **An accepted file has no value that could fail.** -/
theorem Accepted.sound {file : FileSettings} (h : file.Accepted) : file.Sound := by
  refine sound_of_check ?_
  rcases h with rfl | ⟨environment, text, hread⟩
  · rfl
  · unfold read at hread
    split at hread
    · simp at hread
    · next found _ =>
      cases hcheck : found.check with
      | error failure => simp [hcheck, Except.map] at hread
      | ok _ =>
        rw [hcheck] at hread
        rw [← Except.ok.inj hread]
        exact hcheck

end FileSettings

end Rowcast
