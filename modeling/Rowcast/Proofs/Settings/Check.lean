import Mathlib
import Rowcast.Check
import Rowcast.Proofs.Text.Blank

/-!
# What the checks of settings accept

Each check succeeds just where its value is as a conversion needs it: a character that takes one
byte and breaks no line (`IsMark`), a path that names a file of a kind (`UsablePath`), a number that
is not too small.  A chain of checks succeeds where each of them does (`bind_eq_ok_iff`).
-/

namespace Rowcast

/-! ### Chains of checks -/

theorem bind_eq_ok_iff {α β : Type} {x : Except Failure α} {f : α → Except Failure β} {b : β} :
    (x >>= f) = .ok b ↔ ∃ a, x = .ok a ∧ f a = .ok b := by
  cases x <;> simp [bind, Except.bind]

theorem bind_unit_eq_ok_iff {β : Type} {x : Except Failure Unit} {f : Unit → Except Failure β}
    {b : β} : (x >>= f) = .ok b ↔ x = .ok () ∧ f () = .ok b := by
  rw [bind_eq_ok_iff]
  exact ⟨fun ⟨_, h⟩ => h, fun h => ⟨(), h⟩⟩

theorem bind_eq_error_iff {α β : Type} {x : Except Failure α} {f : α → Except Failure β}
    {failure : Failure} :
    (x >>= f) = .error failure ↔ x = .error failure ∨ ∃ a, x = .ok a ∧ f a = .error failure := by
  cases x <;> simp [bind, Except.bind]

theorem ok_bind {α β : Type} (a : α) (f : α → Except Failure β) : (Except.ok a >>= f) = f a := rfl

theorem error_bind {α β : Type} (failure : Failure) (f : α → Except Failure β) :
    (Except.error failure >>= f) = .error failure := rfl

/-! ### Single checks -/

/-- A character that may stand between or around fields. -/
def IsMark (c : Char) : Prop := c.toNat < 0x80 ∧ c ≠ '\n' ∧ c ≠ '\r'

instance (c : Char) : Decidable (IsMark c) := inferInstanceAs (Decidable (_ ∧ _))

structure UsablePath (path extension : String) : Prop where
  not_blank : ∃ c ∈ path.toList, Text.isBlank c = false
  no_nul : '\x00' ∉ path.toList
  has_extension : ∃ found, Path.extension? path = some found ∧
    Text.lowerAscii found.toList = Text.lowerAscii extension.toList

namespace Check

theorem path_eq_ok_iff {field path : String} : Check.path field path = .ok () ↔
    (∃ c ∈ path.toList, Text.isBlank c = false) ∧ '\x00' ∉ path.toList := by
  rw [← Text.isAllBlank_eq_false_iff, Check.path]
  by_cases hblank : Text.isAllBlank path = true
  · simp [hblank]
  · by_cases hnul : '\x00' ∈ path.toList <;> simp [hblank, hnul]

theorem extension_eq_ok_iff {path extension : String} : Check.extension path extension = .ok () ↔
    ∃ found, Path.extension? path = some found ∧
      Text.lowerAscii found.toList = Text.lowerAscii extension.toList := by
  unfold Check.extension Path.hasExtension
  cases Path.extension? path with
  | none => simp
  | some found => simp [Text.eqIgnoringAsciiCase]

theorem atLeast_eq_ok_iff {field : String} {least value : Nat} :
    Check.atLeast field least value = .ok () ↔ least ≤ value := by
  unfold Check.atLeast
  split <;> simp <;> omega

theorem byte_eq_ok_iff {field : String} {c : Char} {b : UInt8} :
    Check.byte field c = .ok b ↔ IsMark c ∧ b = UInt8.ofNat c.toNat := by
  unfold Check.byte
  split
  · next hmark =>
    rw [Except.ok.injEq]
    exact ⟨fun h => ⟨hmark, h.symm⟩, fun h => h.2.symm⟩
  · next hmark =>
    constructor
    · intro h
      cases h
    · rintro ⟨h, -⟩
      exact absurd h hmark

theorem usablePath_iff (field : String) {path extension : String} :
    (Check.path field path = .ok () ∧ Check.extension path extension = .ok ()) ↔
      UsablePath path extension := by
  rw [path_eq_ok_iff, extension_eq_ok_iff]
  exact ⟨fun h => ⟨h.1.1, h.1.2, h.2⟩, fun h => ⟨⟨h.not_blank, h.no_nul⟩, h.has_extension⟩⟩

end Check

theorem toNat_ofNat_of_isMark {c : Char} (h : IsMark c) :
    (UInt8.ofNat c.toNat).toNat = c.toNat := by
  have hlt := h.1
  rw [UInt8.toNat_ofNat']
  omega

/-- Such characters differ where their bytes do. -/
theorem ofNat_eq_iff_of_isMark {c d : Char} (hc : IsMark c) (hd : IsMark d) :
    UInt8.ofNat c.toNat = UInt8.ofNat d.toNat ↔ c = d := by
  constructor
  · intro h
    have hnat := congrArg UInt8.toNat h
    rw [toNat_ofNat_of_isMark hc, toNat_ofNat_of_isMark hd] at hnat
    exact Char.toNat_inj.mp hnat
  · rintro rfl
    rfl

end Rowcast
