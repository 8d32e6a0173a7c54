import Mathlib
import Rowcast.Proofs.Number.Rounding

/-!
# Integers among the numbers

Every integer of 53 binary digits at most is a number (`exists_value_eq`): its binary digits are
moved up until there are 53 of them, and the exponent moves them back.  A rational that is a number
has no other number nearest to it (`IsNearest.value_eq`), so rounding keeps these integers.
-/

namespace Rowcast.Binary64

/-- The digits of an integer in the places of a significand. -/
theorem canonical_of_pos {n : Nat} (hn : n ≠ 0) (hlt : n < 2 ^ 53) :
    Canonical (n * 2 ^ (52 - n.log2)) ((n.log2 : Int) - 52) := by
  have htop : n.log2 ≤ 52 := Nat.lt_succ_iff.mp ((Nat.log2_lt hn).mpr hlt)
  have hlow : 2 ^ 52 ≤ n * 2 ^ (52 - n.log2) := by
    calc 2 ^ 52 = 2 ^ n.log2 * 2 ^ (52 - n.log2) := by rw [← pow_add, Nat.add_sub_cancel' htop]
      _ ≤ n * 2 ^ (52 - n.log2) := Nat.mul_le_mul_right _ (Nat.log2_self_le hn)
  have hhigh : n * 2 ^ (52 - n.log2) < 2 ^ 53 := by
    calc n * 2 ^ (52 - n.log2) < 2 ^ (n.log2 + 1) * 2 ^ (52 - n.log2) :=
          Nat.mul_lt_mul_of_pos_right Nat.lt_log2_self (Nat.two_pow_pos _)
      _ = 2 ^ 53 := by
          rw [← pow_add]
          congr 1
          omega
  refine ⟨hhigh, ?_, ?_, .inr hlow⟩
  · unfold leastExponent
    omega
  · unfold greatestExponent
    omega

/-- Every natural number of 53 binary digits at most is the magnitude of a number of either sign. -/
theorem exists_magnitude_eq (negative : Bool) {n : Nat} (hlt : n < 2 ^ 53) :
    ∃ x : Finite, x.negative = negative ∧ x.magnitude = n := by
  by_cases hn : n = 0
  · refine ⟨.zero negative, rfl, ?_⟩
    simp [Finite.magnitude, Finite.zero, hn]
  · refine ⟨⟨negative, _, _, canonical_of_pos hn hlt⟩, rfl, ?_⟩
    have htop : n.log2 ≤ 52 := Nat.lt_succ_iff.mp ((Nat.log2_lt hn).mpr hlt)
    have hexponent : ((52 - n.log2 : Nat) : Int) + ((n.log2 : Int) - 52) = 0 := by omega
    show ((n * 2 ^ (52 - n.log2) : Nat) : ℚ) * 2 ^ ((n.log2 : Int) - 52) = n
    rw [Nat.cast_mul, Nat.cast_pow, Nat.cast_ofNat, mul_assoc, ← zpow_natCast (2 : ℚ),
      ← zpow_add₀ (by norm_num), hexponent, zpow_zero, mul_one]

/-- **Every integer of 53 binary digits at most is a number.** -/
theorem exists_value_eq {m : Int} (hlt : |m| < 2 ^ 53) : ∃ x : Finite, x.value = m := by
  rw [Int.abs_eq_natAbs] at hlt
  obtain ⟨x, hsign, hmagnitude⟩ := exists_magnitude_eq (decide (m < 0)) (n := m.natAbs) (by omega)
  have habs : x.magnitude = |(m : ℚ)| := by rw [hmagnitude, Nat.cast_natAbs, Int.cast_abs]
  refine ⟨x, ?_⟩
  rw [Finite.value, hsign, habs]
  rcases lt_or_ge m 0 with hneg | hpos
  · have hcast : (m : ℚ) < 0 := by exact_mod_cast hneg
    rw [if_pos (decide_eq_true hneg), abs_of_neg hcast, neg_neg]
  · have hcast : (0 : ℚ) ≤ m := by exact_mod_cast hpos
    rw [if_neg (by simpa using hpos), abs_of_nonneg hcast]

/-- A rational that is a number has no other number nearest to it. -/
theorem IsNearest.value_eq {q : ℚ} {x y : Finite} (h : IsNearest q x) (hy : y.value = q) :
    x.value = q := by
  by_contra hne
  have hxy : y.value ≠ x.value := fun heq => hne (heq ▸ hy)
  have hpos : 0 < |q - x.value| := abs_pos.mpr (sub_ne_zero.mpr (Ne.symm hne))
  have hzero : |q - y.value| = 0 := by rw [hy, sub_self, abs_zero]
  rcases h y hxy with hlt | ⟨heq, -⟩
  · linarith
  · linarith

end Rowcast.Binary64
