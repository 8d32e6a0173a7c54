import Mathlib
import Rowcast.Text.Width

/-!
# The width of printable text

The width of a text is not the sum of the widths of its characters, and colour sequences take away
from it.  Neither matters for the printable characters of ASCII: none of them changes what stands in
front of it, and none begins a colour sequence.  So their texts are as wide as they are long
(`visibleWidth_of_printable`).
-/

namespace Rowcast.Text

/-- A character of ASCII that is not a control character. -/
def IsPrintable (c : Char) : Prop := 0x20 ≤ c.toNat ∧ c.toNat < 0x7F

instance (c : Char) : Decidable (IsPrintable c) := inferInstanceAs (Decidable (_ ∧ _))

theorem IsPrintable.ne {c d : Char} (h : IsPrintable c) (hd : ¬ IsPrintable d) : c ≠ d := by
  rintro rfl
  exact hd h

theorem isPrintable_of_digit {c : Char} (h : c.isDigit = true) : IsPrintable c := by
  obtain ⟨hlow, hhigh⟩ : 48 ≤ c.toNat ∧ c.toNat ≤ 57 := Char.isDigit_iff_toNat.mp h
  constructor <;> omega

variable {s : List Char}

theorem measure_cons (c : Char) (s : List Char) :
    measure (c :: s) = ((measure s).1 + (columnsBefore c (measure s).2).1,
      (columnsBefore c (measure s).2).2) := rfl

theorem columnsBefore_of_printable {c : Char} (h : IsPrintable c) :
    columnsBefore c .plain = (1, .plain) := by
  have hlow : c.toNat ≤ 0xA0 := by
    have := h.2
    omega
  have hfeed : c.toNat ≠ 0x0A := by
    have := h.1
    omega
  simp [columnsBefore, rightOf, hlow, hfeed]

theorem measure_of_printable (h : ∀ c ∈ s, IsPrintable c) :
    measure s = ((s.length : Int), Right.plain) := by
  induction s with
  | nil => rfl
  | cons c s ih =>
    obtain ⟨hc, hs⟩ := List.forall_mem_cons.mp h
    rw [measure_cons, ih hs, columnsBefore_of_printable hc, List.length_cons]
    simp

theorem hidden_of_printable (h : ∀ c ∈ s, IsPrintable c) : hidden s = 0 := by
  unfold hidden
  induction s with
  | nil => rfl
  | cons c s ih =>
    obtain ⟨hc, hs⟩ := List.forall_mem_cons.mp h
    rw [hiddenFrom, if_neg (hc.ne (by decide)), ih hs]

theorem width_of_printable (h : ∀ c ∈ s, IsPrintable c) : width s = s.length := by
  rw [width, measure_of_printable h, Int.toNat_natCast]

/-- **Printable text is as wide as it is long.** -/
theorem visibleWidth_of_printable (h : ∀ c ∈ s, IsPrintable c) : visibleWidth s = s.length := by
  rw [visibleWidth, width_of_printable h, hidden_of_printable h, Nat.sub_zero]

theorem hasVisibleWidth_of_printable (h : ∀ c ∈ s, IsPrintable c) : hasVisibleWidth s = true := by
  rw [hasVisibleWidth, hidden_of_printable h]
  exact decide_eq_true (Nat.zero_le _)

end Rowcast.Text
