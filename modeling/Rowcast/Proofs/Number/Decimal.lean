import Mathlib
import Rowcast.Proofs.Number.Rounding

/-!
# Decimal digits

`Decimal.ofDigits` reads what `Nat.toDigits` writes (`ofDigits_toDigits`), and reading goes piece by
piece (`ofDigits_append`), so that zeros at either end can be moved into a power of ten.  A decimal
stands for a rational; `toBinary64_of_covers` and `toBinary64_zero` say to which number it rounds.
-/

namespace Rowcast

open Binary64

namespace Decimal

/-! ## Digits -/

theorem ofDigits_toDigits (n : Nat) : ofDigits (Nat.toDigits 10 n) = n :=
  Nat.ofDigitChars_toDigits (by decide) (by decide)

theorem foldl_digits (digits : List Char) (n : Nat) :
    digits.foldl (fun n c => 10 * n + digitValue c) n = n * 10 ^ digits.length + ofDigits digits := by
  unfold ofDigits
  induction digits generalizing n with
  | nil => simp
  | cons c digits ih =>
    rw [List.foldl_cons, List.foldl_cons, ih, ih (10 * 0 + digitValue c), List.length_cons]
    ring

theorem ofDigits_append (a b : List Char) :
    ofDigits (a ++ b) = ofDigits a * 10 ^ b.length + ofDigits b := by
  rw [ofDigits, List.foldl_append, foldl_digits]
  rfl

theorem ofDigits_zeros (n : Nat) : ofDigits (List.replicate n '0') = 0 := by
  induction n with
  | zero => rfl
  | succ n ih =>
    have hzero : ofDigits ['0'] = 0 := rfl
    rw [List.replicate_succ, ← List.singleton_append, ofDigits_append, ih, hzero, Nat.zero_mul]

theorem isDigit_of_mem_toDigits {n : Nat} {c : Char} (h : c ∈ Nat.toDigits 10 n) :
    c.isDigit = true :=
  Nat.isDigit_of_mem_toDigits (by decide) (by decide) h

/-- A positive number is written without zeros at the front. -/
theorem exists_toDigits_eq_cons {n : Nat} (hn : n ≠ 0) :
    ∃ first rest, Nat.toDigits 10 n = first :: rest ∧ first ≠ '0' := by
  induction n using Nat.strongRecOn with
  | ind n ih =>
    rcases Nat.lt_or_ge n 10 with hlt | hge
    · refine ⟨n.digitChar, [], Nat.toDigits_of_lt_base hlt, ?_⟩
      have hpos : 0 < n := Nat.pos_of_ne_zero hn
      interval_cases n <;> decide
    · obtain ⟨first, rest, heq, hfirst⟩ := ih (n / 10) (by omega) (by omega)
      refine ⟨first, rest ++ [(n % 10).digitChar], ?_, hfirst⟩
      rw [Nat.toDigits_of_base_le (by decide) hge, heq, List.cons_append]

/-! ## The number nearest to a decimal -/

def magnitude (d : Decimal) : ℚ := d.coefficient * 10 ^ d.exponent

def value (d : Decimal) : ℚ := if d.negative then -d.magnitude else d.magnitude

theorem magnitude_nonneg (d : Decimal) : 0 ≤ d.magnitude := by
  unfold magnitude
  positivity

theorem abs_value (d : Decimal) : |d.value| = d.magnitude := by
  have hnonneg := magnitude_nonneg d
  unfold value
  split
  · rw [abs_neg, abs_of_nonneg hnonneg]
  · exact abs_of_nonneg hnonneg

/-- The fraction of natural numbers that is rounded. -/
theorem exists_ratio (d : Decimal) : ∃ n k : Nat, 0 < k ∧ (n / k : ℚ) = d.magnitude ∧
    d.toBinary64 = ofRatio d.negative n k := by
  obtain ⟨negative, coefficient, exponent⟩ := d
  unfold magnitude toBinary64
  cases exponent with
  | ofNat k => exact ⟨coefficient * Nat.pow 10 k, 1, by decide, by simp, rfl⟩
  | negSucc k =>
    refine ⟨coefficient, Nat.pow 10 (k + 1), Nat.pow_pos (by decide), ?_, rfl⟩
    simp [zpow_negSucc, div_eq_mul_inv]

theorem toBinary64_of_covers {d : Decimal} {x : Finite} (hx : x.significand ≠ 0)
    (hsign : d.negative = x.negative) (h : x.Covers d.magnitude) : d.toBinary64 = .finite x := by
  obtain ⟨n, k, hk, hratio, hround⟩ := exists_ratio d
  rw [hround, hsign]
  rw [← hratio] at h
  exact ofRatio_of_covers hx hk h

theorem toBinary64_zero {d : Decimal} (h : d.coefficient = 0) :
    d.toBinary64 = .finite (.zero d.negative) := by
  unfold toBinary64
  cases d.exponent <;> simp [ofRatio, h]

end Decimal

end Rowcast
