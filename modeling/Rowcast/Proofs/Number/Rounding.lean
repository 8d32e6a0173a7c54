import Mathlib
import Rowcast.Number.Decimal
import Rowcast.Number.Shortest

/-!
# Rounding to the nearest number

A finite number `x` stands for the rational `x.value`, and `x.Covers q` says that `q` lies in the
interval of rationals that round to the magnitude of `x`: half way to the two neighbours, with the
ends when the significand is even.  Both sides of the story meet there.  `ofRatio_of_covers` proves
that `ofRatio` gives `x` for every fraction in the interval, and `isNearest_of_covers` that no other
number is as near to it, one exception apart: in the middle between two numbers the even one is
taken.

The first needs the exponent that `ofRatio` chooses (`unitExponent_eq`): it is the exponent of `x`,
or one less where `x` is a power of two and the fraction lies below it.  The second needs how far
apart numbers are (`succ_le_of_lt` and `le_pred_of_lt`).
-/

namespace Rowcast

/-! ## Rounded division -/

theorem roundDiv_eq {n d m : Nat} (hd : 0 < d) (hlow : 2 * (m * d) ≤ 2 * n + d)
    (hhigh : 2 * n ≤ 2 * (m * d) + d)
    (hodd : m % 2 = 1 → 2 * (m * d) < 2 * n + d ∧ 2 * n < 2 * (m * d) + d) :
    roundDiv n d = m := by
  have hn : d * (n / d) + n % d = n := Nat.div_add_mod n d
  have hr : n % d < d := Nat.mod_lt n hd
  rw [Nat.mul_comm] at hn
  unfold roundDiv
  generalize n / d = q at *
  generalize n % d = r at *
  -- The quotient is `m`, or one less where the remainder is at least half of the divisor.
  have hle : q ≤ m := by
    by_contra hlt
    have : (m + 1) * d ≤ q * d := Nat.mul_le_mul_right d (by omega)
    rw [Nat.add_mul, Nat.one_mul] at this
    omega
  have hge : m ≤ q + 1 := by
    by_contra hlt
    have : (q + 2) * d ≤ m * d := Nat.mul_le_mul_right d (by omega)
    rw [Nat.add_mul] at this
    omega
  obtain rfl | rfl : m = q ∨ m = q + 1 := by omega
  · have hhalf : 2 * r ≤ d := by omega
    by_cases htie : 2 * r = d
    · have heven : m % 2 = 0 := by
        by_contra hne
        have := hodd (by omega)
        omega
      simp [htie, heven]
    · simp [show 2 * r < d by omega]
  · rw [Nat.add_mul, Nat.one_mul] at hlow hhigh hodd
    have hhalf : d ≤ 2 * r := by omega
    have hnot : ¬ 2 * r < d := by omega
    by_cases htie : 2 * r = d
    · have hqodd : ¬ q % 2 = 0 := by
        intro heven
        have := hodd (by omega)
        omega
      simp [htie, hqodd]
    · simp [hnot, show d < 2 * r by omega]

/-- Rounded division is off by at most half of the divisor, and by less when its result is odd. -/
theorem roundDiv_bounds {n d : Nat} (hd : 0 < d) :
    2 * (roundDiv n d * d) ≤ 2 * n + d ∧ 2 * n ≤ 2 * (roundDiv n d * d) + d ∧
      (roundDiv n d % 2 = 1 →
        2 * (roundDiv n d * d) < 2 * n + d ∧ 2 * n < 2 * (roundDiv n d * d) + d) := by
  have hn : d * (n / d) + n % d = n := Nat.div_add_mod n d
  have hr : n % d < d := Nat.mod_lt n hd
  rw [Nat.mul_comm] at hn
  unfold roundDiv
  generalize n / d = q at *
  generalize n % d = r at *
  have hstep : (q + 1) * d = q * d + d := by rw [Nat.add_mul, Nat.one_mul]
  dsimp only
  split_ifs <;> omega

namespace Binary64

/-! ## Values -/

def fraction (x : Nat × Nat) : ℚ := x.1 / x.2

def Finite.magnitude (x : Finite) : ℚ := x.significand * 2 ^ x.exponent

def Finite.value (x : Finite) : ℚ := if x.negative then -x.magnitude else x.magnitude

theorem scaled_denominator_pos {n d : Nat} (hd : 0 < d) (e : Int) : 0 < (scaled n d e).2 := by
  cases e with
  | ofNat k => exact Nat.mul_pos hd (Nat.pow_pos (by decide))
  | negSucc k => exact hd

theorem fraction_scaled (n d : Nat) (e : Int) :
    fraction (scaled n d e) = (n : ℚ) / d / 2 ^ e := by
  cases e with
  | ofNat k => simp [fraction, scaled, div_div]
  | negSucc k =>
    simp [fraction, scaled, zpow_negSucc]
    ring

theorem magnitude_eq_ratio (x : Finite) : x.magnitude = fraction x.ratio := by
  unfold Finite.magnitude Finite.ratio
  cases x.exponent with
  | ofNat k => simp [fraction]
  | negSucc k =>
    simp [fraction, zpow_negSucc]
    ring

/-- The lower end of the interval of rationals that round to the magnitude of `x`. -/
def Finite.low (x : Finite) : ℚ := x.quarters.1 * 2 ^ (x.exponent - 2)

def Finite.high (x : Finite) : ℚ := x.quarters.2.2 * 2 ^ (x.exponent - 2)

/-- A rational that rounds to the magnitude of `x`. -/
def Finite.Covers (x : Finite) (q : ℚ) : Prop :=
  x.low ≤ q ∧ q ≤ x.high ∧ (x.significand % 2 = 1 → x.low < q ∧ q < x.high)

/-- Below a power of two the numbers lie twice as close as above it. -/
def Finite.IsPower (x : Finite) : Prop :=
  x.significand = 2 ^ 52 ∧ leastExponent < x.exponent

instance (x : Finite) : Decidable x.IsPower := by
  unfold Finite.IsPower; infer_instance

def Finite.gapAbove (x : Finite) : ℚ := 2 ^ x.exponent

def Finite.gapBelow (x : Finite) : ℚ := if x.IsPower then 2 ^ x.exponent / 2 else 2 ^ x.exponent

variable {x : Finite} {q : ℚ}

theorem two_zpow_sub_two (e : Int) : (2 : ℚ) ^ (e - 2) = 2 ^ e / 4 := by
  rw [zpow_sub₀ (by norm_num)]
  norm_num

theorem high_eq (x : Finite) : x.high = x.magnitude + x.gapAbove / 2 := by
  simp only [Finite.high, Finite.quarters, Finite.magnitude, Finite.gapAbove, two_zpow_sub_two]
  push_cast
  ring

theorem low_eq (h : x.significand ≠ 0) : x.low = x.magnitude - x.gapBelow / 2 := by
  simp only [Finite.low, Finite.quarters, Finite.magnitude, Finite.gapBelow, two_zpow_sub_two]
  by_cases hpower : x.IsPower
  · have hbelow : (if x.significand = Nat.pow 2 52 ∧ leastExponent < x.exponent then 1 else 2) = 1 :=
      if_pos hpower
    rw [hbelow, if_pos hpower, Nat.cast_sub (by omega)]
    push_cast
    ring
  · have hbelow : (if x.significand = Nat.pow 2 52 ∧ leastExponent < x.exponent then 1 else 2) = 2 :=
      if_neg hpower
    rw [hbelow, if_neg hpower, Nat.cast_sub (by omega)]
    push_cast
    ring

/-! ## The exponent of the nearest number -/

theorem two_zpow_log2_le {n : Nat} (hn : n ≠ 0) :
    (2 : ℚ) ^ (n.log2 : Int) ≤ n ∧ (n : ℚ) < 2 ^ (n.log2 + 1 : Int) := by
  constructor
  · rw [zpow_natCast]
    exact_mod_cast Nat.log2_self_le hn
  · rw [← Nat.cast_succ, zpow_natCast]
    exact_mod_cast Nat.lt_log2_self

/-- The power of two at the first binary digit of a fraction is 52 above the unit. -/
theorem exists_unitExponent {n d : Nat} (hn : n ≠ 0) (hd : 0 < d) :
    ∃ top : Int, (2 : ℚ) ^ top ≤ n / d ∧ (n / d : ℚ) < 2 ^ (top + 1) ∧
      unitExponent n d = max leastExponent (top - 52) := by
  obtain ⟨hnlow, hnhigh⟩ := two_zpow_log2_le hn
  obtain ⟨hdlow, hdhigh⟩ := two_zpow_log2_le hd.ne'
  have hdpos : (0 : ℚ) < d := by exact_mod_cast hd
  have hnpos : (0 : ℚ) < n := by exact_mod_cast Nat.pos_of_ne_zero hn
  set k : Int := (n.log2 : Int) - d.log2 with hk
  have hlt : (n / d : ℚ) < 2 ^ (k + 1) := by
    rw [div_lt_iff₀ hdpos]
    calc (n : ℚ) < 2 ^ (n.log2 + 1 : Int) := hnhigh
      _ = 2 ^ (k + 1) * 2 ^ (d.log2 : Int) := by
        rw [← zpow_add₀ (by norm_num)]
        congr 1
        omega
      _ ≤ 2 ^ (k + 1) * d := by gcongr
  have hge : (2 : ℚ) ^ (k - 1) ≤ n / d := by
    rw [le_div_iff₀ hdpos]
    calc (2 : ℚ) ^ (k - 1) * d ≤ 2 ^ (k - 1) * 2 ^ (d.log2 + 1 : Int) := by gcongr
      _ = 2 ^ (n.log2 : Int) := by
        rw [← zpow_add₀ (by norm_num)]
        congr 1
        omega
      _ ≤ n := hnlow
  have hscaled : (scaled n d k).1 < (scaled n d k).2 ↔ (n / d : ℚ) < 2 ^ k := by
    have hpos : (0 : ℚ) < (scaled n d k).2 := by exact_mod_cast scaled_denominator_pos hd k
    have hone : fraction (scaled n d k) < 1 ↔ (scaled n d k).1 < (scaled n d k).2 := by
      rw [fraction, div_lt_one hpos, Nat.cast_lt]
    rw [← hone, fraction_scaled, div_lt_one (by positivity)]
  unfold unitExponent
  simp only [← hk]
  split
  · next hbelow =>
    rw [hscaled] at hbelow
    exact ⟨k - 1, hge, by rwa [sub_add_cancel], rfl⟩
  · next hbelow =>
    rw [hscaled, not_lt] at hbelow
    exact ⟨k, hbelow, hlt, rfl⟩

theorem gapAbove_pos (x : Finite) : 0 < x.gapAbove := by
  unfold Finite.gapAbove
  positivity

theorem gapBelow_le (x : Finite) : x.gapBelow ≤ x.gapAbove := by
  have hpos := gapAbove_pos x
  unfold Finite.gapBelow
  unfold Finite.gapAbove at *
  split <;> linarith

theorem gapBelow_pos (x : Finite) : 0 < x.gapBelow := by
  unfold Finite.gapBelow
  split <;> positivity

theorem magnitude_eq (x : Finite) : x.magnitude = x.significand * x.gapAbove := rfl

theorem Finite.IsPower.significand_ne_zero (h : x.IsPower) : x.significand ≠ 0 := by
  rw [h.1]
  norm_num

theorem Finite.IsPower.magnitude_eq (h : x.IsPower) : x.magnitude = 2 ^ 52 * x.gapAbove := by
  have hm : (x.significand : ℚ) = 2 ^ 52 := by exact_mod_cast h.1
  rw [Binary64.magnitude_eq, hm]

theorem Finite.IsPower.gapBelow_eq (h : x.IsPower) : x.gapBelow = x.gapAbove / 2 := if_pos h

theorem gapBelow_of_not_isPower (h : ¬ x.IsPower) : x.gapBelow = x.gapAbove := if_neg h

theorem gapAbove_le_magnitude (h : x.significand ≠ 0) : x.gapAbove ≤ x.magnitude := by
  have hone : (1 : ℚ) ≤ x.significand := by exact_mod_cast Nat.one_le_iff_ne_zero.mpr h
  rw [magnitude_eq]
  nlinarith [gapAbove_pos x]

theorem low_pos (h : x.significand ≠ 0) : 0 < x.low := by
  rw [low_eq h]
  linarith [gapAbove_le_magnitude h, gapBelow_le x, gapAbove_pos x]

theorem significand_lt (x : Finite) : x.significand < 2 ^ 53 := x.canonical.1

theorem leastExponent_le (x : Finite) : leastExponent ≤ x.exponent := x.canonical.2.1

theorem normal_of_ne (h : x.exponent ≠ leastExponent) : 2 ^ 52 ≤ x.significand :=
  x.canonical.2.2.2.resolve_left h

theorem two_zpow_add (x : Finite) (k : Nat) :
    (2 : ℚ) ^ (x.exponent + k) = 2 ^ k * x.gapAbove := by
  rw [zpow_add₀ (by norm_num), zpow_natCast, mul_comm]
  rfl

theorem two_zpow_sub_one (x : Finite) : (2 : ℚ) ^ (x.exponent - 1) = x.gapAbove / 2 := by
  rw [zpow_sub_one₀ (by norm_num), div_eq_mul_inv]
  rfl

theorem Finite.Covers.lt_top (h : x.Covers q) : q < 2 ^ 53 * x.gapAbove := by
  have hm : (x.significand : ℚ) + 1 ≤ 2 ^ 53 := by exact_mod_cast significand_lt x
  have hmul := mul_le_mul_of_nonneg_right hm (gapAbove_pos x).le
  have hhigh := h.2.1
  rw [high_eq, magnitude_eq] at hhigh
  linarith [gapAbove_pos x]

/-- A fraction below `2 ^ 52` units lies just below a power of two. -/
theorem Finite.Covers.isPower (h : x.Covers q) (hx : x.exponent ≠ leastExponent)
    (hq : q < 2 ^ 52 * x.gapAbove) :
    x.IsPower ∧ q < x.magnitude ∧ 2 ^ 51 * x.gapAbove ≤ q := by
  have hnormal := normal_of_ne hx
  have hm : (2 : ℚ) ^ 52 ≤ x.significand := by exact_mod_cast hnormal
  have hmul := mul_le_mul_of_nonneg_right hm (gapAbove_pos x).le
  have hgap := gapBelow_le x
  have hlow := h.1
  rw [low_eq (by omega), magnitude_eq] at hlow
  have hpower : x.IsPower := by
    refine ⟨?_, lt_of_le_of_ne (leastExponent_le x) (Ne.symm hx)⟩
    by_contra hne
    have hmore : (2 : ℚ) ^ 52 + 1 ≤ x.significand := by
      exact_mod_cast Nat.lt_of_le_of_ne hnormal (Ne.symm hne)
    have := mul_le_mul_of_nonneg_right hmore (gapAbove_pos x).le
    linarith [gapAbove_pos x]
  refine ⟨hpower, ?_, ?_⟩
  · rw [magnitude_eq]
    linarith
  · linarith [gapAbove_pos x]

/-- **The exponent of the unit** in which a covered fraction is rounded: that of the number, or one
less for a fraction just below a power of two. -/
theorem unitExponent_eq (hx : x.significand ≠ 0) {n d : Nat} (hd : 0 < d)
    (h : x.Covers (n / d)) :
    unitExponent n d = x.exponent ∨
      x.IsPower ∧ (n / d : ℚ) < x.magnitude ∧ unitExponent n d = x.exponent - 1 := by
  have hn : n ≠ 0 := by
    rintro rfl
    have := h.1
    simp only [Nat.cast_zero, zero_div] at this
    linarith [low_pos hx]
  obtain ⟨top, htop, hbelow, hunit⟩ := exists_unitExponent hn hd
  have hlt : ∀ {a b : Int}, (2 : ℚ) ^ a < 2 ^ b → a < b :=
    (zpow_lt_zpow_iff_right₀ (by norm_num : (1 : ℚ) < 2)).mp
  have hleast := leastExponent_le x
  have hle : top < x.exponent + (53 : Nat) := by
    refine hlt (htop.trans_lt ?_)
    rw [two_zpow_add]
    exact h.lt_top
  by_cases hsubnormal : x.exponent = leastExponent
  · left
    omega
  by_cases hq : (n / d : ℚ) < 2 ^ 52 * x.gapAbove
  · right
    obtain ⟨hpower, hmagnitude, hhalf⟩ := h.isPower hsubnormal hq
    rw [← two_zpow_add x 52] at hq
    rw [← two_zpow_add x 51] at hhalf
    have hupper := hlt (htop.trans_lt hq)
    have hlower := hlt (hhalf.trans_lt hbelow)
    have := hpower.2
    exact ⟨hpower, hmagnitude, by omega⟩
  · left
    rw [not_lt, ← two_zpow_add x 52] at hq
    have := hlt (hq.trans_lt hbelow)
    omega

/-! ## The nearest number -/

/-- `m` is an integer nearest to `q`; of two equally near it is the even one. -/
structure Near (m : Nat) (q : ℚ) : Prop where
  low : (m : ℚ) - 1 / 2 ≤ q
  high : q ≤ m + 1 / 2
  odd : m % 2 = 1 → (m : ℚ) - 1 / 2 < q ∧ q < m + 1 / 2

/-- Rounded division of a fraction, stated of the rational that it stands for. -/
theorem roundDiv_of_near {x : Nat × Nat} {m : Nat} (hpos : 0 < x.2) (h : Near m (fraction x)) :
    roundDiv x.1 x.2 = m := by
  have hposq : (0 : ℚ) < x.2 := by exact_mod_cast hpos
  obtain ⟨hlow, hhigh, hodd⟩ := h
  unfold fraction at *
  rw [le_div_iff₀ hposq] at hlow
  rw [div_le_iff₀ hposq] at hhigh
  refine roundDiv_eq hpos ?_ ?_ ?_
  · have : (2 * (m * x.2) : ℚ) ≤ 2 * x.1 + x.2 := by linarith
    exact_mod_cast this
  · have : (2 * x.1 : ℚ) ≤ 2 * (m * x.2) + x.2 := by linarith
    exact_mod_cast this
  · intro hm
    obtain ⟨hlow', hhigh'⟩ := hodd hm
    rw [lt_div_iff₀ hposq] at hlow'
    rw [div_lt_iff₀ hposq] at hhigh'
    have hl : (2 * (m * x.2) : ℚ) < 2 * x.1 + x.2 := by linarith
    have hh : (2 * x.1 : ℚ) < 2 * (m * x.2) + x.2 := by linarith
    exact ⟨by exact_mod_cast hl, by exact_mod_cast hh⟩

/-- What rounded division gives is near to the fraction. -/
theorem near_roundDiv {x : Nat × Nat} (hpos : 0 < x.2) : Near (roundDiv x.1 x.2) (fraction x) := by
  have hposq : (0 : ℚ) < x.2 := by exact_mod_cast hpos
  obtain ⟨hlow, hhigh, hodd⟩ := roundDiv_bounds (n := x.1) hpos
  refine ⟨?_, ?_, fun hm => ?_⟩
  · have hlow' : (2 * (roundDiv x.1 x.2 * x.2) : ℚ) ≤ 2 * x.1 + x.2 := by exact_mod_cast hlow
    rw [fraction, le_div_iff₀ hposq]
    linarith
  · have hhigh' : (2 * x.1 : ℚ) ≤ 2 * (roundDiv x.1 x.2 * x.2) + x.2 := by exact_mod_cast hhigh
    rw [fraction, div_le_iff₀ hposq]
    linarith
  · have hlow' : (2 * (roundDiv x.1 x.2 * x.2) : ℚ) < 2 * x.1 + x.2 := by
      exact_mod_cast (hodd hm).1
    have hhigh' : (2 * x.1 : ℚ) < 2 * (roundDiv x.1 x.2 * x.2) + x.2 := by
      exact_mod_cast (hodd hm).2
    rw [fraction, lt_div_iff₀ hposq, div_lt_iff₀ hposq]
    constructor <;> linarith

theorem ofParts_eq (x : Finite) : ofParts x.negative x.significand x.exponent = .finite x := by
  rw [ofParts, dif_pos x.canonical]

theorem Finite.Covers.pos (hx : x.significand ≠ 0) (h : x.Covers q) : 0 < q :=
  (low_pos hx).trans_le h.1

/-- In units of the number a covered fraction is nearest to the significand. -/
theorem roundDiv_of_covers (hx : x.significand ≠ 0) {n d : Nat} (hd : 0 < d)
    (h : x.Covers (n / d)) :
    roundDiv (scaled n d x.exponent).1 (scaled n d x.exponent).2 = x.significand := by
  have hgap := gapAbove_pos x
  have hbelow := gapBelow_le x
  have hfraction : fraction (scaled n d x.exponent) = (n / d : ℚ) / x.gapAbove :=
    fraction_scaled n d x.exponent
  obtain ⟨hlow, hhigh, hodd⟩ := h
  rw [low_eq hx, magnitude_eq] at hlow hodd
  rw [high_eq, magnitude_eq] at hhigh hodd
  refine roundDiv_of_near (scaled_denominator_pos hd _) ⟨?_, ?_, ?_⟩
  · rw [hfraction, le_div_iff₀ hgap]
    linarith
  · rw [hfraction, div_le_iff₀ hgap]
    linarith
  · intro hm
    obtain ⟨hlow', hhigh'⟩ := hodd hm
    rw [hfraction, lt_div_iff₀ hgap, div_lt_iff₀ hgap]
    constructor <;> linarith

/-- Just below a power of two the unit is half as large, and the fraction is nearest to the power,
which is twice as many of these units. -/
theorem roundDiv_of_covers_power (hpower : x.IsPower) {n d : Nat} (hd : 0 < d)
    (h : x.Covers (n / d)) (hq : (n / d : ℚ) < x.magnitude) :
    roundDiv (scaled n d (x.exponent - 1)).1 (scaled n d (x.exponent - 1)).2 = 2 ^ 53 := by
  have hgap := gapAbove_pos x
  have hfraction : fraction (scaled n d (x.exponent - 1)) = (n / d : ℚ) / (x.gapAbove / 2) := by
    rw [fraction_scaled, two_zpow_sub_one]
  have hlow := h.1
  rw [low_eq hpower.significand_ne_zero, hpower.magnitude_eq, hpower.gapBelow_eq] at hlow
  rw [hpower.magnitude_eq] at hq
  refine roundDiv_of_near (scaled_denominator_pos hd _) ⟨?_, ?_, by norm_num⟩
  · rw [hfraction, le_div_iff₀ (by linarith)]
    push_cast
    linarith
  · rw [hfraction, div_le_iff₀ (by linarith)]
    push_cast
    linarith

/-- **A fraction that a number covers rounds to it.** -/
theorem ofRatio_of_covers (hx : x.significand ≠ 0) {n d : Nat} (hd : 0 < d)
    (h : x.Covers (n / d)) : ofRatio x.negative n d = .finite x := by
  have hn : n ≠ 0 := by
    rintro rfl
    have := h.pos hx
    simp at this
  have hlt := significand_lt x
  rcases unitExponent_eq hx hd h with hunit | ⟨hpower, hq, hunit⟩
  · have hround := roundDiv_of_covers hx hd h
    have hne : x.significand ≠ Nat.pow 2 53 := hlt.ne
    simp only [ofRatio, if_neg hn, hunit, hround, if_neg hne]
    exact ofParts_eq x
  · have hround := roundDiv_of_covers_power hpower hd h hq
    have hcarry : (2 : Nat) ^ 53 = Nat.pow 2 53 := rfl
    have hparts : ofParts x.negative (Nat.pow 2 52) x.exponent = .finite x := by
      have hm : Nat.pow 2 52 = x.significand := hpower.1.symm
      rw [hm]
      exact ofParts_eq x
    simp only [ofRatio, if_neg hn, hunit, hround, if_pos hcarry, sub_add_cancel, hparts]

/-! ### No other number is as near -/

/-- A number with a unit that is no smaller is a multiple of the smaller unit. -/
theorem exists_multiple {y : Finite} (h : x.exponent ≤ y.exponent) :
    ∃ k : Nat, y.magnitude = k * x.gapAbove := by
  obtain ⟨j, hj⟩ := Int.le.dest h
  refine ⟨y.significand * 2 ^ j, ?_⟩
  rw [Finite.magnitude, ← hj, two_zpow_add]
  push_cast
  ring

/-- A number with a smaller unit is less than `2 ^ 52` of the larger unit. -/
theorem magnitude_le_of_exponent_lt {y : Finite} (h : y.exponent < x.exponent) :
    y.magnitude ≤ 2 ^ 52 * x.gapAbove - x.gapAbove / 2 := by
  have hm : (y.significand : ℚ) ≤ 2 ^ 53 - 1 := by
    have : (y.significand : ℚ) + 1 ≤ 2 ^ 53 := by exact_mod_cast significand_lt y
    linarith
  have hunit : (2 : ℚ) ^ y.exponent ≤ x.gapAbove / 2 := by
    calc (2 : ℚ) ^ y.exponent ≤ 2 ^ (x.exponent - 1) :=
          zpow_le_zpow_right₀ (by norm_num) (by omega)
      _ = x.gapAbove / 2 := two_zpow_sub_one x
  calc y.magnitude = y.significand * 2 ^ y.exponent := rfl
    _ ≤ (2 ^ 53 - 1) * (x.gapAbove / 2) := by gcongr
    _ = 2 ^ 52 * x.gapAbove - x.gapAbove / 2 := by ring

/-- The next magnitude above lies `gapAbove` higher. -/
theorem magnitude_add_le_of_lt {y : Finite} (h : x.magnitude < y.magnitude) :
    x.magnitude + x.gapAbove ≤ y.magnitude := by
  have hgap := gapAbove_pos x
  rcases le_or_gt x.exponent y.exponent with hle | hlt
  · obtain ⟨k, hk⟩ := exists_multiple hle
    rw [hk, magnitude_eq] at h ⊢
    have hmk : (x.significand : ℚ) < k := lt_of_mul_lt_mul_right h hgap.le
    have hstep : (x.significand : ℚ) + 1 ≤ k := by exact_mod_cast hmk
    linarith [mul_le_mul_of_nonneg_right hstep hgap.le]
  · have hleast := leastExponent_le y
    have hm : (2 : ℚ) ^ 52 ≤ x.significand := by exact_mod_cast normal_of_ne (x := x) (by omega)
    have hmul := mul_le_mul_of_nonneg_right hm hgap.le
    have hy := magnitude_le_of_exponent_lt hlt
    rw [magnitude_eq] at h
    linarith

/-- The next magnitude below lies `gapBelow` lower. -/
theorem le_magnitude_sub_of_lt {y : Finite} (h : y.magnitude < x.magnitude) :
    y.magnitude ≤ x.magnitude - x.gapBelow := by
  have hgap := gapAbove_pos x
  have hbelow := gapBelow_le x
  rcases le_or_gt x.exponent y.exponent with hle | hlt
  · obtain ⟨k, hk⟩ := exists_multiple hle
    rw [hk, magnitude_eq] at h ⊢
    have hkm : (k : ℚ) < x.significand := lt_of_mul_lt_mul_right h hgap.le
    have hstep : (k : ℚ) + 1 ≤ x.significand := by exact_mod_cast hkm
    linarith [mul_le_mul_of_nonneg_right hstep hgap.le]
  · have hleast := leastExponent_le y
    have hy := magnitude_le_of_exponent_lt hlt
    have hnormal := normal_of_ne (x := x) (by omega)
    by_cases hpower : x.IsPower
    · rw [hpower.magnitude_eq, hpower.gapBelow_eq]
      exact hy
    · have hne : x.significand ≠ 2 ^ 52 := fun heq => hpower ⟨heq, by omega⟩
      have hm : (2 : ℚ) ^ 52 + 1 ≤ x.significand := by
        exact_mod_cast Nat.lt_of_le_of_ne hnormal (Ne.symm hne)
      rw [magnitude_eq x]
      linarith [mul_le_mul_of_nonneg_right hm hgap.le]

/-- No number is nearer to `q` than `x` is, and another one is as near only if the significand of
`x` is even. -/
def IsNearest (q : ℚ) (x : Finite) : Prop :=
  ∀ y : Finite, y.value ≠ x.value →
    |q - x.value| < |q - y.value| ∨
      |q - x.value| = |q - y.value| ∧ x.significand % 2 = 0

theorem magnitude_nonneg (x : Finite) : 0 ≤ x.magnitude := by
  unfold Finite.magnitude
  positivity

/-- Of the magnitudes and their negatives none but that of `x` lies closer to it than the gaps. -/
theorem outside_gaps (hx : x.significand ≠ 0) {y : Finite} {v : ℚ}
    (hv : v = y.magnitude ∨ v = -y.magnitude) (hne : v ≠ x.magnitude) :
    x.magnitude + x.gapAbove ≤ v ∨ v ≤ x.magnitude - x.gapBelow := by
  have hy := magnitude_nonneg y
  rcases hv with rfl | rfl
  · rcases lt_or_gt_of_ne hne with hlt | hgt
    · exact .inr (le_magnitude_sub_of_lt hlt)
    · exact .inl (magnitude_add_le_of_lt hgt)
  · right
    linarith [gapAbove_le_magnitude hx, gapBelow_le x]

theorem nearer_of_covers (hx : x.significand ≠ 0) (h : x.Covers q) {y : Finite} {v : ℚ}
    (hv : v = y.magnitude ∨ v = -y.magnitude) (hne : v ≠ x.magnitude) :
    |q - x.magnitude| < |q - v| ∨ |q - x.magnitude| = |q - v| ∧ x.significand % 2 = 0 := by
  obtain ⟨hlow, hhigh, hodd⟩ := h
  rw [low_eq hx] at hlow hodd
  rw [high_eq] at hhigh hodd
  have habove := gapAbove_pos x
  have hbelow := gapBelow_pos x
  have hle := gapBelow_le x
  have hfar : |q - x.magnitude| ≤ |q - v| ∧
      (x.significand % 2 = 1 → |q - x.magnitude| < |q - v|) := by
    rcases outside_gaps hx hv hne with hv | hv
    · rw [abs_of_nonpos (by linarith : q - v ≤ 0), abs_le, abs_lt]
      refine ⟨⟨by linarith, by linarith⟩, fun hm => ?_⟩
      have := hodd hm
      exact ⟨by linarith, by linarith⟩
    · rw [abs_of_nonneg (by linarith : 0 ≤ q - v), abs_le, abs_lt]
      refine ⟨⟨by linarith, by linarith⟩, fun hm => ?_⟩
      have := hodd hm
      exact ⟨by linarith, by linarith⟩
  rcases Nat.mod_two_eq_zero_or_one x.significand with heven | hm
  · exact hfar.1.lt_or_eq.imp_right fun heq => ⟨heq, heven⟩
  · exact .inl (hfar.2 hm)

theorem value_eq (y : Finite) : y.value = y.magnitude ∨ y.value = -y.magnitude := by
  unfold Finite.value
  split
  · exact .inr rfl
  · exact .inl rfl

theorem value_of_significand_zero (hx : x.significand = 0) : x.value = 0 := by
  simp [Finite.value, Finite.magnitude, hx]

/-- **The number that covers a rational is the nearest to it.** -/
theorem isNearest_of_covers (hx : x.significand ≠ 0) (h : x.Covers q) :
    IsNearest (if x.negative then -q else q) x := by
  intro y hy
  have hvalue := value_eq y
  cases hsign : x.negative with
  | false =>
    have hxvalue : x.value = x.magnitude := by simp [Finite.value, hsign]
    rw [hxvalue] at hy ⊢
    simpa using nearer_of_covers hx h hvalue hy
  | true =>
    have hxvalue : x.value = -x.magnitude := by simp [Finite.value, hsign]
    have hflip : -y.value = y.magnitude ∨ -y.value = -y.magnitude := by
      rcases hvalue with hv | hv
      · exact .inr (by rw [hv])
      · exact .inl (by rw [hv, neg_neg])
    have hne : -y.value ≠ x.magnitude := by
      intro heq
      exact hy (by rw [hxvalue, ← heq, neg_neg])
    have habs : ∀ a b : ℚ, |-a - b| = |a - -b| := by
      intro a b
      rw [← abs_neg]
      congr 1
      ring
    have hnearer := nearer_of_covers hx h hflip hne
    rw [if_pos rfl, hxvalue, habs, habs, neg_neg]
    exact hnearer

end Binary64

end Rowcast
