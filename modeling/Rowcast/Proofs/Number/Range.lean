import Mathlib
import Rowcast.Proofs.Number.Decimal

/-!
# The range of finite numbers

The largest finite number is `2 ^ 53 - 1` units of `2 ^ 971`, and the next multiple of the unit
would be `2 ^ 1024`.  A rational rounds to a finite number exactly below the middle of the two, which
is `overflowBound`; from there on, the middle included, it rounds to an infinity, because the
significand on the other side of the middle is odd.

`exists_rounds` says which significand and exponent `ofRatio` finds for a fraction before it looks
at the range.  Below the bound they are those of a number that covers the fraction
(`exists_finite_of_lt`), and from the bound on there is no such number (`ofRatio_of_overflow`).
-/

namespace Rowcast

namespace Binary64

/-- The middle between the largest number and the next multiple of its unit. -/
def overflowBound : ℚ := 2 ^ 1024 - 2 ^ 970

theorem overflowBound_eq : overflowBound = (2 ^ 53 - 1 / 2) * 2 ^ greatestExponent := by
  have htop : (2 : ℚ) ^ 1024 = 2 ^ 53 * 2 ^ 971 := by rw [← pow_add]
  have hhalf : (2 : ℚ) ^ 971 = 2 * 2 ^ 970 := by rw [← pow_succ']
  have hunit : (2 : ℚ) ^ greatestExponent = 2 ^ 971 := zpow_natCast 2 971
  rw [overflowBound, hunit, htop, hhalf]
  generalize (2 : ℚ) ^ 970 = half
  ring

theorem overflowBound_pos : 0 < overflowBound := by
  rw [overflowBound_eq]
  exact mul_pos (by norm_num) (by positivity)

/-- The next unit is twice as large. -/
theorem two_mul_zpow_le {a b : Int} (h : a < b) : 2 * (2 : ℚ) ^ a ≤ 2 ^ b := by
  calc 2 * (2 : ℚ) ^ a = 2 ^ (a + 1) := by rw [zpow_add_one₀ (by norm_num), mul_comm]
    _ ≤ 2 ^ b := zpow_le_zpow_right₀ (by norm_num) h

/-! ## The significand and the exponent of a fraction -/

/-- `m` units of `2 ^ e` are nearest to `q`, and the unit is the largest that tells `q` from its
neighbours. -/
structure Rounds (q : ℚ) (m : Nat) (e : Int) : Prop where
  pos : 0 < q
  least_le : leastExponent ≤ e
  normal : e = leastExponent ∨ 2 ^ 52 ≤ q / 2 ^ e
  top : q / 2 ^ e < 2 ^ 53
  near : Near m (q / 2 ^ e)

theorem rounds_ofRatio {n d : Nat} (hn : n ≠ 0) (hd : 0 < d) :
    Rounds (n / d) (roundDiv (scaled n d (unitExponent n d)).1 (scaled n d (unitExponent n d)).2)
      (unitExponent n d) := by
  obtain ⟨top, hlow, hhigh, hunit⟩ := exists_unitExponent hn hd
  have hpos : (0 : ℚ) < 2 ^ unitExponent n d := by positivity
  refine ⟨?_, ?_, ?_, ?_, ?_⟩
  · exact (zpow_pos (by norm_num) top).trans_le hlow
  · rw [hunit]
    exact le_max_left _ _
  · rcases max_choice leastExponent (top - 52) with hleast | htop
    · exact .inl (hunit.trans hleast)
    · right
      rw [le_div_iff₀ hpos, hunit, htop]
      calc (2 : ℚ) ^ 52 * 2 ^ (top - 52) = 2 ^ ((52 : Nat) + (top - 52)) := by
            rw [zpow_add₀ (by norm_num), zpow_natCast]
        _ = 2 ^ top := by congr 1; omega
        _ ≤ n / d := hlow
  · rw [div_lt_iff₀ hpos]
    calc (n / d : ℚ) < 2 ^ (top + 1) := hhigh
      _ ≤ 2 ^ ((53 : Nat) + unitExponent n d) := zpow_le_zpow_right₀ (by norm_num) (by omega)
      _ = 2 ^ 53 * 2 ^ unitExponent n d := by rw [zpow_add₀ (by norm_num), zpow_natCast]
  · have hnear := near_roundDiv (scaled_denominator_pos hd (unitExponent n d)) (x := scaled n d _)
    rwa [fraction_scaled] at hnear

namespace Rounds

variable {q : ℚ} {m : Nat} {e : Int} (h : Rounds q m e)

include h

/-- The significand may be carried over to the next power of two, and no further. -/
theorem significand_le : m ≤ 2 ^ 53 := by
  have hlt : (m : ℚ) < 2 ^ 53 + 1 := by linarith [h.near.low, h.top]
  exact Nat.lt_succ_iff.mp (by exact_mod_cast hlt)

theorem normal_significand : e = leastExponent ∨ 2 ^ 52 ≤ m := by
  refine h.normal.imp_right fun hnormal => ?_
  have hlt : (2 : ℚ) ^ 52 < m + 1 := by linarith [h.near.high]
  exact Nat.lt_succ_iff.mp (by exact_mod_cast hlt)

theorem lt_top : q < 2 ^ 53 * 2 ^ e := (div_lt_iff₀ (by positivity)).mp h.top

theorem low_le : ((m : ℚ) - 1 / 2) * 2 ^ e ≤ q := (le_div_iff₀ (by positivity)).mp h.near.low

theorem le_high : q ≤ ((m : ℚ) + 1 / 2) * 2 ^ e := (div_le_iff₀ (by positivity)).mp h.near.high

theorem odd (hm : m % 2 = 1) :
    ((m : ℚ) - 1 / 2) * 2 ^ e < q ∧ q < ((m : ℚ) + 1 / 2) * 2 ^ e :=
  ⟨(lt_div_iff₀ (by positivity)).mp (h.near.odd hm).1,
    (div_lt_iff₀ (by positivity)).mp (h.near.odd hm).2⟩

/-- A unit above the largest one puts the fraction out of range. -/
theorem exponent_le (hq : q < overflowBound) : e ≤ greatestExponent := by
  by_contra hlt
  rw [not_le] at hlt
  have hunit := two_mul_zpow_le hlt
  have hpos : (0 : ℚ) < 2 ^ greatestExponent := by positivity
  rcases h.normal with hleast | hnormal
  · rw [hleast] at hlt
    exact absurd hlt (by decide)
  · rw [le_div_iff₀ (by positivity)] at hnormal
    rw [overflowBound_eq] at hq
    linarith

/-- A significand carried over belongs to the next unit, which is in range as well. -/
theorem exponent_lt_of_carry (hq : q < overflowBound) (hm : m = 2 ^ 53) : e < greatestExponent := by
  refine lt_of_le_of_ne (h.exponent_le hq) ?_
  rintro rfl
  have hlow := h.low_le
  rw [overflowBound_eq] at hq
  rw [hm] at hlow
  push_cast at hlow
  exact absurd hlow (not_le.mpr hq)

/-- From the bound on the unit is the largest one at least, and with that one the significand is
carried over. -/
theorem overflow (hq : overflowBound ≤ q) :
    greatestExponent ≤ e ∧ (e = greatestExponent → m = 2 ^ 53) := by
  rw [overflowBound_eq] at hq
  have hpos : (0 : ℚ) < 2 ^ greatestExponent := by positivity
  constructor
  · by_contra hlt
    have hunit := two_mul_zpow_le (not_le.mp hlt)
    linarith [h.lt_top]
  · rintro rfl
    have hhigh := h.le_high
    have hge : (2 : ℚ) ^ 53 ≤ m + 1 := by
      have := le_of_mul_le_mul_right (hq.trans hhigh) hpos
      linarith
    have hge' : 2 ^ 53 ≤ m + 1 := by exact_mod_cast hge
    have hle := h.significand_le
    by_contra hne
    obtain rfl : m = 2 ^ 53 - 1 := by omega
    have hlt := (h.odd (by norm_num)).2
    push_cast at hlt
    linarith

end Rounds

/-- What `ofRatio` makes of a fraction: the significand goes to the next unit where it is carried
over. -/
theorem exists_rounds (negative : Bool) {n d : Nat} (hn : n ≠ 0) (hd : 0 < d) :
    ∃ m e, Rounds (n / d) m e ∧
      ofRatio negative n d =
        if m = 2 ^ 53 then ofParts negative (2 ^ 52) (e + 1) else ofParts negative m e :=
  ⟨_, _, rounds_ofRatio hn hd, if_neg hn⟩

/-! ## The number of a fraction -/

variable {x : Finite} {q : ℚ}

theorem low_zero (hx : x.significand = 0) : x.low = 0 := by
  simp [Finite.low, Finite.quarters, hx]

/-- A number covers what has its significand and its exponent. -/
theorem Rounds.covers (h : Rounds q x.significand x.exponent) : x.Covers q := by
  have hgap := gapAbove_pos x
  have hunit : (2 : ℚ) ^ x.exponent = x.gapAbove := rfl
  have hlow := h.low_le
  have hhigh := h.le_high
  rw [hunit] at hlow hhigh
  refine ⟨?_, ?_, fun hm => ?_⟩
  · by_cases hx : x.significand = 0
    · rw [low_zero hx]
      exact h.pos.le
    rw [low_eq hx]
    by_cases hpower : x.IsPower
    · -- Below the power the interval is shorter, but a fraction there has a smaller unit.
      have hbelow := gapBelow_pos x
      have hnormal := h.normal.resolve_left hpower.2.ne'
      rw [le_div_iff₀ (by positivity)] at hnormal
      rw [hpower.magnitude_eq]
      exact (sub_le_self _ (by linarith)).trans hnormal
    · rw [magnitude_eq, gapBelow_of_not_isPower hpower]
      linarith
  · rw [high_eq, magnitude_eq]
    linarith
  · have hx : x.significand ≠ 0 := by omega
    have hpower : ¬ x.IsPower := by
      intro hpower
      rw [hpower.1] at hm
      exact absurd hm (by norm_num)
    have hodd := h.odd hm
    rw [hunit] at hodd
    rw [low_eq hx, high_eq, magnitude_eq, gapBelow_of_not_isPower hpower]
    constructor <;> linarith

/-- A power of two covers what carries its significand over to it. -/
theorem Rounds.covers_of_carry (hpower : x.IsPower) (h : Rounds q (2 ^ 53) (x.exponent - 1)) :
    x.Covers q := by
  have hlow := h.low_le
  have htop := h.lt_top
  rw [two_zpow_sub_one] at hlow htop
  push_cast at hlow
  refine ⟨?_, ?_, fun hodd => ?_⟩
  · rw [low_eq hpower.significand_ne_zero, hpower.magnitude_eq, hpower.gapBelow_eq]
    linarith
  · rw [high_eq, hpower.magnitude_eq]
    linarith [gapAbove_pos x]
  · rw [hpower.1] at hodd
    exact absurd hodd (by norm_num)

theorem covers_zero (negative : Bool) : (Finite.zero negative).Covers 0 := by
  have hlow := low_zero (x := Finite.zero negative) rfl
  have heven : (Finite.zero negative).significand % 2 ≠ 1 := Nat.zero_ne_one
  refine ⟨hlow.le, ?_, fun hm => absurd hm heven⟩
  unfold Finite.high
  positivity

/-- **A fraction below the bound rounds to a finite number** that covers it. -/
theorem exists_finite_of_lt (negative : Bool) {n d : Nat} (hd : 0 < d)
    (hq : (n / d : ℚ) < overflowBound) :
    ∃ x : Finite, ofRatio negative n d = .finite x ∧ x.negative = negative ∧ x.Covers (n / d) := by
  by_cases hn : n = 0
  · refine ⟨.zero negative, if_pos hn, rfl, ?_⟩
    simpa [hn] using covers_zero negative
  obtain ⟨m, e, h, hratio⟩ := exists_rounds negative hn hd
  by_cases hm : m = 2 ^ 53
  · have hlt := h.exponent_lt_of_carry hq hm
    have hleast := h.least_le
    have hcanonical : Canonical (2 ^ 52) (e + 1) :=
      ⟨by norm_num, by omega, by omega, .inr le_rfl⟩
    refine ⟨⟨negative, 2 ^ 52, e + 1, hcanonical⟩, ?_, rfl, ?_⟩
    · rw [hratio, if_pos hm, ofParts, dif_pos hcanonical]
    · refine Rounds.covers_of_carry ⟨rfl, by show leastExponent < e + 1; omega⟩ ?_
      rw [hm] at h
      simpa using h
  · have hlt : m < 2 ^ 53 := lt_of_le_of_ne h.significand_le hm
    have hcanonical : Canonical m e :=
      ⟨hlt, h.least_le, h.exponent_le hq, h.normal_significand⟩
    refine ⟨⟨negative, m, e, hcanonical⟩, ?_, rfl, Rounds.covers h⟩
    rw [hratio, if_neg hm, ofParts, dif_pos hcanonical]

/-- **A fraction from the bound on rounds to an infinity.** -/
theorem ofRatio_of_overflow (negative : Bool) {n d : Nat} (hd : 0 < d)
    (hq : overflowBound ≤ (n / d : ℚ)) : ofRatio negative n d = .infinite negative := by
  have hn : n ≠ 0 := by
    rintro rfl
    rw [Nat.cast_zero, zero_div] at hq
    exact absurd hq (not_le.mpr overflowBound_pos)
  obtain ⟨m, e, h, hratio⟩ := exists_rounds negative hn hd
  obtain ⟨hge, hcarry⟩ := h.overflow hq
  by_cases hm : m = 2 ^ 53
  · have hnot : ¬ Canonical (2 ^ 52) (e + 1) := fun hcanonical => by
      have := hcanonical.2.2.1
      omega
    rw [hratio, if_pos hm, ofParts, dif_neg hnot]
  · have hnot : ¬ Canonical m e := fun hcanonical =>
      hm (hcarry (le_antisymm hcanonical.2.2.1 hge))
    rw [hratio, if_neg hm, ofParts, dif_neg hnot]

/-! ## The number of a decimal -/

theorem abs_value (x : Finite) : |x.value| = x.magnitude := by
  rcases value_eq x with heq | heq
  · rw [heq, abs_of_nonneg (magnitude_nonneg x)]
  · rw [heq, abs_neg, abs_of_nonneg (magnitude_nonneg x)]

/-- Nothing is nearer than zero to what zero covers: the least unit apart lies the next number. -/
theorem isNearest_of_covers_zero (hx : x.significand = 0) (hq : 0 ≤ q) (h : x.Covers q) :
    IsNearest (if x.negative then -q else q) x := by
  intro y hy
  have hvalue := value_of_significand_zero hx
  have hexponent : x.exponent = leastExponent := by
    by_contra hne
    have := normal_of_ne hne
    omega
  have hgap : x.gapAbove ≤ |y.value| := by
    have hne : y.significand ≠ 0 := by
      intro hzero
      exact hy (by rw [hvalue, value_of_significand_zero hzero])
    have hunit : x.gapAbove ≤ y.gapAbove := by
      unfold Finite.gapAbove
      rw [hexponent]
      exact zpow_le_zpow_right₀ (by norm_num) (leastExponent_le y)
    rw [abs_value]
    exact hunit.trans (gapAbove_le_magnitude hne)
  have hhalf : q ≤ x.gapAbove / 2 := by
    have hhigh := h.2.1
    rwa [high_eq, magnitude_eq, hx, Nat.cast_zero, zero_mul, zero_add] at hhigh
  have habs : |if x.negative then -q else q| = q := by
    split
    · rw [abs_neg, abs_of_nonneg hq]
    · exact abs_of_nonneg hq
  have hfar := abs_sub_abs_le_abs_sub y.value (if x.negative then -q else q)
  rw [abs_sub_comm y.value, habs] at hfar
  rw [hvalue, sub_zero, habs]
  have hle : q ≤ |(if x.negative then -q else q) - y.value| := by linarith
  exact hle.lt_or_eq.imp_right fun heq => ⟨heq, by rw [hx]⟩

end Binary64

namespace Decimal

open Binary64

variable {d : Decimal}

/-- **A decimal below the bound is rounded** to the finite number nearest to it. -/
theorem exists_toBinary64_of_lt (h : |d.value| < overflowBound) :
    ∃ x : Finite, d.toBinary64 = .finite x ∧ IsNearest d.value x := by
  rw [abs_value] at h
  obtain ⟨n, k, hk, hratio, hround⟩ := exists_ratio d
  rw [← hratio] at h
  obtain ⟨x, hx, hsign, hcovers⟩ := exists_finite_of_lt d.negative hk h
  refine ⟨x, hround.trans hx, ?_⟩
  rw [hratio] at hcovers
  unfold value
  rw [← hsign]
  by_cases hzero : x.significand = 0
  · exact isNearest_of_covers_zero hzero (magnitude_nonneg d) hcovers
  · exact isNearest_of_covers hzero hcovers

/-- **A decimal from the bound on is rounded to an infinity.** -/
theorem toBinary64_of_overflow (h : overflowBound ≤ |d.value|) :
    d.toBinary64 = .infinite d.negative := by
  rw [abs_value] at h
  obtain ⟨n, k, hk, hratio, hround⟩ := exists_ratio d
  rw [← hratio] at h
  rw [hround, ofRatio_of_overflow d.negative hk h]

end Decimal

end Rowcast
