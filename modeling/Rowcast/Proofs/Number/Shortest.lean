import Mathlib
import Rowcast.Proofs.Number.Decimal

/-!
# The shortest decimal rounds back

`shortest` tries finer and finer decimal grids until one of the two grid points next to the number
rounds to it.  A grid point that it takes is one that the number covers (`covers_of_onGrid?`), so
all that is left to show is that the search never runs out.  On the grid of the seventeenth digit it
cannot: there the points lie closer than the numbers do (`step_lt_gapBelow`), so that the nearer one
of the two is covered (`onGrid?_ne_none`).

`spells_shortest` is the result: the digits spell a rational that the number covers.
-/

namespace Rowcast.Binary64

variable {x : Finite}

/-! ## Fractions -/

theorem fraction_twoPower (n : Nat) (e : Int) : fraction (twoPower n e) = n * 2 ^ e := by
  cases e with
  | ofNat k => simp [fraction, twoPower]
  | negSucc k => simp [fraction, twoPower, zpow_negSucc, div_eq_mul_inv]

theorem fraction_tenPower (n : Nat) (e : Int) : fraction (tenPower n e) = n * 10 ^ e := by
  cases e with
  | ofNat k => simp [fraction, tenPower]
  | negSucc k => simp [fraction, tenPower, zpow_negSucc, div_eq_mul_inv]

theorem twoPower_pos (n : Nat) (e : Int) : 0 < (twoPower n e).2 := by
  cases e with
  | ofNat k => exact Nat.one_pos
  | negSucc k => exact Nat.pow_pos (by decide)

theorem tenPower_pos (n : Nat) (e : Int) : 0 < (tenPower n e).2 := by
  cases e with
  | ofNat k => exact Nat.one_pos
  | negSucc k => exact Nat.pow_pos (by decide)

theorem atMost_iff {a b : Nat × Nat} (ha : 0 < a.2) (hb : 0 < b.2) :
    atMost a b = true ↔ fraction a ≤ fraction b := by
  rw [fraction, fraction, div_le_div_iff₀ (by exact_mod_cast ha) (by exact_mod_cast hb), atMost,
    decide_eq_true_eq]
  exact_mod_cast Iff.rfl

theorem below_iff {a b : Nat × Nat} (ha : 0 < a.2) (hb : 0 < b.2) :
    below a b = true ↔ fraction a < fraction b := by
  rw [fraction, fraction, div_lt_div_iff₀ (by exact_mod_cast ha) (by exact_mod_cast hb), below,
    decide_eq_true_eq]
  exact_mod_cast Iff.rfl

/-! ## Grids -/

/-- The check of the search is that the number covers the grid point. -/
theorem admits_iff (c : Nat) (k : Int) : x.admits c k = true ↔ x.Covers (c * 10 ^ k) := by
  have hlow : fraction (twoPower x.quarters.1 (x.exponent - 2)) = x.low := fraction_twoPower _ _
  have hhigh : fraction (twoPower x.quarters.2.2 (x.exponent - 2)) = x.high := fraction_twoPower _ _
  have hten := fraction_tenPower c k
  unfold Finite.Covers Finite.admits
  simp only
  split
  · next heven =>
    rw [Bool.and_eq_true, atMost_iff (twoPower_pos _ _) (tenPower_pos _ _),
      atMost_iff (tenPower_pos _ _) (twoPower_pos _ _), hlow, hhigh, hten]
    constructor
    · rintro ⟨hl, hh⟩
      exact ⟨hl, hh, fun hodd => by omega⟩
    · rintro ⟨hl, hh, -⟩
      exact ⟨hl, hh⟩
  · next hodd =>
    rw [Bool.and_eq_true, below_iff (twoPower_pos _ _) (tenPower_pos _ _),
      below_iff (tenPower_pos _ _) (twoPower_pos _ _), hlow, hhigh, hten]
    constructor
    · rintro ⟨hl, hh⟩
      exact ⟨hl.le, hh.le, fun _ => ⟨hl, hh⟩⟩
    · rintro ⟨-, -, hstrict⟩
      exact hstrict (by omega)

theorem covers_of_onGrid? {c : Nat} {k : Int} (h : x.onGrid? k = some c) :
    x.Covers (c * 10 ^ k) := by
  rw [← admits_iff]
  unfold Finite.onGrid? at h
  simp only at h
  split at h
  · simp at h
  · next hlower _ => simp_all
  · next _ hupper => simp_all
  · next hlower hupper =>
    repeat' split at h
    all_goals
      injection h with h
      subst h
      assumption

theorem ratio_pos (x : Finite) : 0 < x.ratio.2 := by
  unfold Finite.ratio
  cases x.exponent with
  | ofNat k => exact Nat.one_pos
  | negSucc k => exact Nat.pow_pos (by decide)

theorem tenPower_one_pos (k : Int) : 0 < (tenPower 1 k).1 := by
  cases k with
  | ofNat k => exact Nat.mul_pos Nat.one_pos (Nat.pow_pos (by decide))
  | negSucc k => exact Nat.one_pos

/-- The number stands between two points of a grid. -/
theorem neighbours_spec (x : Finite) (k : Int) :
    ((x.neighbours k).1 : ℚ) * 10 ^ k ≤ x.magnitude ∧
      x.magnitude < ((x.neighbours k).1 + 1) * 10 ^ k := by
  have hten : (10 : ℚ) ^ k = (tenPower 1 k).1 / (tenPower 1 k).2 := by
    have := fraction_tenPower 1 k
    rw [Nat.cast_one, one_mul] at this
    exact this.symm
  have hd : (0 : ℚ) < x.ratio.2 := by exact_mod_cast ratio_pos x
  have hb : (0 : ℚ) < (tenPower 1 k).2 := by exact_mod_cast tenPower_pos 1 k
  have hunit : 0 < x.ratio.2 * (tenPower 1 k).1 := Nat.mul_pos (ratio_pos x) (tenPower_one_pos k)
  have hq : (x.neighbours k).1 =
      x.ratio.1 * (tenPower 1 k).2 / (x.ratio.2 * (tenPower 1 k).1) := rfl
  have hlower := Nat.div_mul_le_self (x.ratio.1 * (tenPower 1 k).2) (x.ratio.2 * (tenPower 1 k).1)
  have hupper := Nat.lt_mul_of_div_lt
    (Nat.lt_succ_self (x.ratio.1 * (tenPower 1 k).2 / (x.ratio.2 * (tenPower 1 k).1))) hunit
  rw [← hq] at hlower hupper
  rw [magnitude_eq_ratio, fraction, hten, mul_div_assoc', mul_div_assoc',
    div_le_div_iff₀ hb hd, div_lt_div_iff₀ hd hb]
  constructor
  · have : ((x.neighbours k).1 * (tenPower 1 k).1 * x.ratio.2 : Nat) ≤
        x.ratio.1 * (tenPower 1 k).2 := by linarith
    exact_mod_cast this
  · have : x.ratio.1 * (tenPower 1 k).2 <
        ((x.neighbours k).1 + 1) * (tenPower 1 k).1 * x.ratio.2 := by linarith
    exact_mod_cast this

theorem admits_of_onGrid?_eq_none {k : Int} (h : x.onGrid? k = none) :
    x.admits (x.neighbours k).1 k = false ∧ x.admits ((x.neighbours k).1 + 1) k = false := by
  unfold Finite.onGrid? at h
  simp only at h
  split at h
  · next hlower hupper => exact ⟨hlower, hupper⟩
  · simp at h
  · simp at h
  · repeat' split at h
    all_goals simp at h

/-- A grid that is fine enough for seventeen digits is finer than the numbers are. -/
theorem step_lt_gapBelow {k : Int} (h : (10 : ℚ) ^ k * 10 ^ 16 ≤ x.magnitude) :
    (10 : ℚ) ^ k < x.gapBelow := by
  have hgap := gapAbove_pos x
  by_cases hpower : x.IsPower
  · rw [hpower.magnitude_eq] at h
    rw [hpower.gapBelow_eq]
    linarith
  · have hm : (x.significand : ℚ) ≤ 2 ^ 53 := by exact_mod_cast (significand_lt x).le
    have hmul := mul_le_mul_of_nonneg_right hm hgap.le
    rw [magnitude_eq] at h
    rw [gapBelow_of_not_isPower hpower]
    linarith

/-- **On a fine grid one of the two points next to the number is covered**, the nearer one. -/
theorem onGrid?_ne_none (hx : x.significand ≠ 0) {k : Int}
    (h : (10 : ℚ) ^ k * 10 ^ 16 ≤ x.magnitude) : x.onGrid? k ≠ none := by
  intro hnone
  obtain ⟨hlower, hupper⟩ := admits_of_onGrid?_eq_none hnone
  rw [← Bool.not_eq_true, admits_iff] at hlower hupper
  obtain ⟨hle, hlt⟩ := neighbours_spec x k
  have hstep := step_lt_gapBelow h
  have hgap := gapBelow_le x
  have hcovers : ∀ q : ℚ, x.magnitude - 10 ^ k / 2 ≤ q → q ≤ x.magnitude + 10 ^ k / 2 →
      x.Covers q := by
    intro q hlow hhigh
    have hl : x.low < q := by
      rw [low_eq hx]
      linarith
    have hh : q < x.high := by
      rw [high_eq]
      linarith
    exact ⟨hl.le, hh.le, fun _ => ⟨hl, hh⟩⟩
  have hpos : (0 : ℚ) < 10 ^ k := by positivity
  push_cast at hupper
  rw [add_mul, one_mul] at hupper hlt
  rcases le_total (x.magnitude - (x.neighbours k).1 * 10 ^ k) (10 ^ k / 2) with hnear | hnear
  · exact hlower (hcovers _ (by linarith) (by linarith))
  · exact hupper (hcovers _ (by linarith) (by linarith))

/-! ## The search -/

theorem covers_search (hx : x.significand ≠ 0) (tries : Nat) {k : Int}
    (h : (10 : ℚ) ^ (k - tries) * 10 ^ 16 ≤ x.magnitude) :
    x.Covers ((x.search k (tries + 1)).1 * 10 ^ (x.search k (tries + 1)).2) := by
  induction tries generalizing k with
  | zero =>
    rw [Finite.search]
    cases hgrid : x.onGrid? k with
    | none => exact absurd hgrid (onGrid?_ne_none hx (by simpa using h))
    | some c => exact covers_of_onGrid? hgrid
  | succ tries ih =>
    rw [Finite.search]
    cases hgrid : x.onGrid? k with
    | none =>
      refine ih ?_
      rwa [sub_sub, ← Nat.cast_one (R := Int), ← Nat.cast_add, Nat.add_comm]
    | some c => exact covers_of_onGrid? hgrid

theorem ten_pow_le_of_toDigits {n : Nat} (hn : 0 < n) :
    10 ^ ((Nat.toDigits 10 n).length - 1) ≤ n := by
  by_contra hlt
  rcases Nat.eq_zero_or_pos ((Nat.toDigits 10 n).length - 1) with hzero | hpos
  · rw [hzero] at hlt
    omega
  · have := (Nat.length_toDigits_le_iff (by decide) hpos).mpr (not_le.mp hlt)
    omega

theorem lt_ten_pow_toDigits (n : Nat) : n < 10 ^ (Nat.toDigits 10 n).length :=
  (Nat.length_toDigits_le_iff (by decide) Nat.length_toDigits_pos).mp le_rfl

theorem ten_zpow_neg_le {n d j : Nat} (hd : 0 < d) (h : d ≤ n * 10 ^ j) :
    (10 : ℚ) ^ (-(j : Int)) ≤ n / d := by
  have hdq : (0 : ℚ) < d := by exact_mod_cast hd
  have hq : (d : ℚ) ≤ n * 10 ^ j := by exact_mod_cast h
  rw [zpow_neg, zpow_natCast, inv_eq_one_div, div_le_div_iff₀ (by positivity) hdq]
  linarith

/-- The search starts at the first digit of the number, or above it. -/
theorem ten_zpow_leadingExponent_le {n d : Nat} (hn : 0 < n) (hd : 0 < d) :
    (10 : ℚ) ^ leadingExponent n d ≤ n / d := by
  unfold leadingExponent
  split
  · next hle =>
    rw [zpow_natCast]
    have hpow := ten_pow_le_of_toDigits (Nat.div_pos hle hd)
    calc (10 : ℚ) ^ ((Nat.toDigits 10 (n / d)).length - 1) ≤ (n / d : Nat) := by exact_mod_cast hpow
      _ ≤ n / d := Nat.cast_div_le
  · simp only
    split
    · next hle => exact ten_zpow_neg_le hd hle
    · refine ten_zpow_neg_le hd ?_
      have hlt := lt_ten_pow_toDigits (d / n)
      rw [Nat.div_lt_iff_lt_mul hn, Nat.mul_comm] at hlt
      exact hlt.le

/-! ## The digits -/

/-- Digits that spell a positive rational, without zeros at the front. -/
structure Digits.Spells (d : Digits) (q : ℚ) : Prop where
  first : ∃ first rest, d.digits = first :: rest ∧ first ≠ '0'
  digits : ∀ c ∈ d.digits, c.isDigit = true
  value : (Decimal.ofDigits d.digits : ℚ) * 10 ^ (d.exponent - (d.digits.length - 1 : Nat)) = q

theorem exists_zeros (digits : List Char) :
    ∃ j, digits = (digits.reverse.dropWhile (· == '0')).reverse ++ List.replicate j '0' := by
  refine ⟨(digits.reverse.takeWhile (· == '0')).length, ?_⟩
  have hsplit : digits.reverse.takeWhile (· == '0') ++ digits.reverse.dropWhile (· == '0') =
      digits.reverse := List.takeWhile_append_dropWhile
  have hzeros : digits.reverse.takeWhile (· == '0') =
      List.replicate (digits.reverse.takeWhile (· == '0')).length '0' := by
    refine List.eq_replicate_of_mem fun c hc => ?_
    simpa using List.mem_takeWhile_imp hc
  calc digits = digits.reverse.reverse := (List.reverse_reverse digits).symm
    _ = (digits.reverse.dropWhile (· == '0')).reverse ++
        (digits.reverse.takeWhile (· == '0')).reverse := by
      rw [← List.reverse_append, hsplit]
    _ = _ := by rw [hzeros, List.reverse_replicate, List.length_replicate]

/-- Leaving the zeros at the end out moves them into the power of ten. -/
theorem spells_ofScaled {c : Nat} (hc : c ≠ 0) (k : Int) :
    (Digits.ofScaled c k).Spells (c * 10 ^ k) := by
  obtain ⟨first, rest, hfirst, hne⟩ := Decimal.exists_toDigits_eq_cons hc
  obtain ⟨j, hj⟩ := exists_zeros (Nat.toDigits 10 c)
  have hscaled : (Digits.ofScaled c k).exponent = k + ((Nat.toDigits 10 c).length - 1 : Nat) := rfl
  have hdigits : (Digits.ofScaled c k).digits =
      if ((Nat.toDigits 10 c).reverse.dropWhile (· == '0')).reverse.isEmpty then ['0']
      else ((Nat.toDigits 10 c).reverse.dropWhile (· == '0')).reverse := rfl
  generalize ((Nat.toDigits 10 c).reverse.dropWhile (· == '0')).reverse = kept at hj hdigits
  cases kept with
  | nil =>
    have : first ∈ List.replicate j '0' := by
      rw [← List.nil_append (List.replicate j '0'), ← hj, hfirst]
      exact List.mem_cons_self
    exact absurd (List.eq_of_mem_replicate this) hne
  | cons d kept =>
    simp only [List.isEmpty_cons, Bool.false_eq_true, if_false] at hdigits
    have hhead : first = d := by
      have := hfirst.symm.trans hj
      simp only [List.cons_append, List.cons.injEq] at this
      exact this.1
    refine ⟨⟨d, kept, hdigits, hhead ▸ hne⟩, ?_, ?_⟩
    · intro a ha
      rw [hdigits] at ha
      refine Decimal.isDigit_of_mem_toDigits (n := c) ?_
      rw [hj]
      exact List.mem_append_left _ ha
    · have hvalue : (c : ℚ) = Decimal.ofDigits (d :: kept) * 10 ^ j := by
        have := Decimal.ofDigits_toDigits c
        rw [hj, Decimal.ofDigits_append, Decimal.ofDigits_zeros, List.length_replicate] at this
        exact_mod_cast this.symm
      have hlength : (Nat.toDigits 10 c).length = kept.length + 1 + j := by
        rw [hj, List.length_append, List.length_cons, List.length_replicate]
      have hexponent : (Digits.ofScaled c k).exponent - ((d :: kept).length - 1 : Nat) = j + k := by
        rw [hscaled, hlength]
        simp
        omega
      rw [hdigits, hexponent, hvalue, zpow_add₀ (by norm_num), zpow_natCast]
      ring

/-- **The shortest digits spell a rational that rounds to the number.** -/
theorem spells_shortest (hx : x.significand ≠ 0) :
    ∃ q, x.shortest.Spells q ∧ x.Covers q := by
  have hn : 0 < x.ratio.1 := by
    unfold Finite.ratio
    have hpos := Nat.pos_of_ne_zero hx
    cases x.exponent with
    | ofNat k => exact Nat.mul_pos hpos (Nat.pow_pos (by decide))
    | negSucc k => exact hpos
  have hstart := ten_zpow_leadingExponent_le hn (ratio_pos x)
  have hcovers := covers_search hx 16 (k := leadingExponent x.ratio.1 x.ratio.2) (by
    rw [magnitude_eq_ratio, fraction, ← zpow_natCast (10 : ℚ) 16, ← zpow_add₀ (by norm_num)]
    simpa using hstart)
  have hshortest : x.shortest =
      Digits.ofScaled (x.search (leadingExponent x.ratio.1 x.ratio.2) 17).1
        (x.search (leadingExponent x.ratio.1 x.ratio.2) 17).2 := by
    rw [Finite.shortest, if_neg hx]
  generalize x.search (leadingExponent x.ratio.1 x.ratio.2) 17 = found at hcovers hshortest
  refine ⟨_, ?_, hcovers⟩
  rw [hshortest]
  refine spells_ofScaled ?_ _
  intro hzero
  have := hcovers.pos hx
  simp [hzero] at this

end Rowcast.Binary64
