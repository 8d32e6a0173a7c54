import Mathlib
import Rowcast.Json.Text
import Rowcast.Proofs.Column.Coercion
import Rowcast.Proofs.Json.NumberText
import Rowcast.Proofs.Json.Reading
import Rowcast.Proofs.Number.Integer

/-!
# Safe integers

Up to `greatestSafeInteger` the integers pass through a column of numbers unchanged: whichever way
an integer is spelled, what is written are its digits (`coerce_safe_integer`).

A literal of such an integer is rounded to the integer itself, because that is a number.  What is
written depends on the value of a number only (`numberText_of_integer`), so no part of the spelling
comes through.  Beyond the bound, and for every number with a fraction, the text has a point or an
exponent (`point_or_mark_mem_fractionText`).
-/

namespace Rowcast

namespace Json

open Binary64

variable {x : Finite}

theorem safeMagnitude?_eq_some_iff {n : Nat} :
    safeMagnitude? x = some n ↔ x.magnitude = n ∧ n ≤ greatestSafeInteger := by
  constructor
  · intro h
    refine ⟨magnitude_of_safeMagnitude? h, ?_⟩
    simp only [safeMagnitude?, Option.ite_none_right_eq_some, Option.some.injEq] at h
    obtain ⟨⟨-, hle⟩, rfl⟩ := h
    exact hle
  · rintro ⟨hmagnitude, hle⟩
    have hpos := ratio_pos x
    have hposq : (x.ratio.2 : ℚ) ≠ 0 := by exact_mod_cast hpos.ne'
    rw [magnitude_eq_ratio, fraction, div_eq_iff hposq] at hmagnitude
    have hratio : x.ratio.1 = n * x.ratio.2 := by exact_mod_cast hmagnitude
    simp [safeMagnitude?, hratio, Nat.mul_div_cancel n hpos, hle]

/-! ### The text of an integer -/

theorem toList_toString_int (m : Int) : (toString m).toList =
    if m < 0 then '-' :: Nat.toDigits 10 m.natAbs else Nat.toDigits 10 m.natAbs := by
  cases m with
  | ofNat n => exact String.toList_ofList
  | negSucc n =>
    rw [if_pos (Int.negSucc_lt_zero n)]
    exact (String.toList_append).trans (congrArg ('-' :: ·) String.toList_ofList)

/-- The sign of a number whose value is an integer. -/
theorem negative_iff_of_value {m : Int} (h : x.value = m) :
    x.negative = true ∧ m.natAbs ≠ 0 ↔ m < 0 := by
  have hnonneg := magnitude_nonneg x
  unfold Finite.value at h
  cases hsign : x.negative with
  | true =>
    rw [hsign, if_pos rfl] at h
    have hle : (m : ℚ) ≤ 0 := by linarith
    have hle' : m ≤ 0 := by exact_mod_cast hle
    rw [eq_self, true_and]
    omega
  | false =>
    rw [hsign, if_neg Bool.false_ne_true] at h
    have hge : (0 : ℚ) ≤ m := by linarith
    have hge' : 0 ≤ m := by exact_mod_cast hge
    simpa using hge'

/-- **A number whose value is a safe integer is written as its digits**, the zeros included. -/
theorem numberText_of_integer {m : Int} (h : x.value = m) (hle : |m| ≤ greatestSafeInteger) :
    numberText (.finite x) = (toString m).toList := by
  have hmagnitude : x.magnitude = m.natAbs := by
    rw [← abs_value, h, Nat.cast_natAbs, Int.cast_abs]
  rw [Int.abs_eq_natAbs, Nat.cast_le] at hle
  have hsafe : safeMagnitude? x = some m.natAbs :=
    safeMagnitude?_eq_some_iff.mpr ⟨hmagnitude, hle⟩
  simp only [numberText, hsafe, negative_iff_of_value h, toList_toString_int]

/-! ### The text of any other number -/

/-- Digits are written with a point or an exponent. -/
theorem point_or_mark_mem_fractionText (d : Digits) :
    '.' ∈ fractionText d ∨ 'e' ∈ fractionText d := by
  unfold fractionText
  split
  · left
    unfold writtenOut
    split
    · split <;> simp
    · simp
  · right
    simp [scientific]

/-- A number whose text has neither a point nor an exponent is a safe integer. -/
theorem exists_integer_of_text (hpoint : '.' ∉ numberText (.finite x))
    (hmark : 'e' ∉ numberText (.finite x)) :
    ∃ m : Int, x.value = m ∧ |m| ≤ greatestSafeInteger := by
  cases hsafe : safeMagnitude? x with
  | some n =>
    obtain ⟨hmagnitude, hle⟩ := safeMagnitude?_eq_some_iff.mp hsafe
    rcases value_eq x with hvalue | hvalue
    · exact ⟨n, by rw [hvalue, hmagnitude, Int.cast_natCast], by simpa using hle⟩
    · exact ⟨-n, by rw [hvalue, hmagnitude, Int.cast_neg, Int.cast_natCast], by simpa using hle⟩
  | none =>
    have hfraction := point_or_mark_mem_fractionText x.shortest
    have htext : numberText (.finite x) =
        if x.negative then '-' :: fractionText x.shortest else fractionText x.shortest := by
      simp only [numberText, hsafe]
    have hsubset : fractionText x.shortest ⊆ numberText (.finite x) := by
      rw [htext]
      split
      · exact List.subset_cons_self _ _
      · exact List.Subset.refl _
    exact absurd hfraction (not_or.mpr ⟨fun h => hpoint (hsubset h), fun h => hmark (hsubset h)⟩)

/-- Only finite numbers have the text of a number. -/
theorem exists_finite_of_number {x : Binary64} {d : Decimal} (h : Number (numberText x) d) :
    ∃ y, x = .finite y := by
  cases x with
  | finite y => exact ⟨y, rfl⟩
  | infinite | notANumber =>
    obtain ⟨c, s, htext, hc⟩ := h.exists_cons
    obtain rfl : 'n' = c := (List.cons.inj htext).1
    exact absurd hc (by decide)

end Json

namespace Column

open Binary64 Decimal

/-- A literal of a safe integer becomes a number with that value. -/
theorem coerce_of_integer {raw : String} {l : Literal} {m : Int} (h : Spells raw l)
    (hpower : l.exponent.natAbs < exponentBound) (hvalue : l.value = m)
    (hle : |m| ≤ Json.greatestSafeInteger) :
    ∃ x : Finite, coerce raw .number = .number (.finite x) ∧ x.value = m := by
  have hsafe : |m| < 2 ^ 53 := lt_of_le_of_lt hle (by decide)
  have hlt : |l.value| < overflowBound := by
    have hunit : (1 : ℚ) ≤ 2 ^ greatestExponent := one_le_zpow₀ (by norm_num) (by decide)
    have habs : |(m : ℚ)| ≤ 2 ^ 53 - 1 := by exact_mod_cast Int.le_sub_one_of_lt hsafe
    rw [hvalue, overflowBound_eq]
    linarith
  obtain ⟨x, hx, hnearest⟩ := coerce_of_lt h hpower hlt
  obtain ⟨y, hy⟩ := exists_value_eq hsafe
  rw [hvalue] at hnearest
  exact ⟨x, hx, hnearest.value_eq hy⟩

/-- **Safe integers are exact from end to end.**  Every literal of an integer of at most this
magnitude, blank space around it aside, is written as the digits of the integer, in JSON and in a
table.  No other number is written without a point and an exponent. -/
theorem coerce_safe_integer :
    (∀ (raw : String) (l : Literal) (m : Int), Spells raw l → l.exponent.natAbs < 65536 →
      l.value = m → |m| ≤ 9007199254740991 →
        Json.valueText (coerce raw .number) = (toString m).toList ∧
          (coerce raw .number).display = toString m) ∧
      ∀ x : Binary64, (∃ d, Json.Number (Json.numberText x) d) →
        '.' ∉ Json.numberText x → 'e' ∉ Json.numberText x → 'E' ∉ Json.numberText x →
          ∃ (y : Finite) (m : Int), x = .finite y ∧ y.value = m ∧ |m| ≤ 9007199254740991 := by
  constructor
  · intro raw l m hspells hpower hvalue hle
    obtain ⟨x, hx, hxvalue⟩ := coerce_of_integer hspells hpower hvalue hle
    have htext : Json.valueText (coerce raw .number) = (toString m).toList := by
      rw [hx]
      exact Json.numberText_of_integer hxvalue hle
    refine ⟨htext, ?_⟩
    rw [← String.ofList_toList (s := toString m), ← htext, hx]
    rfl
  · rintro x ⟨d, hnumber⟩ hpoint hmark -
    obtain ⟨y, rfl⟩ := Json.exists_finite_of_number hnumber
    obtain ⟨m, hvalue, hle⟩ := Json.exists_integer_of_text hpoint hmark
    exact ⟨y, m, rfl, hvalue, hle⟩

/-- The least safe integer in a form that uses every part of a literal. -/
def leastSafe : Literal where
  sign := .minus
  whole := '0' :: '0' :: "9007199254740991000".toList
  fraction? := some ['0']
  power? := everyPart.power?
  isDigit_whole := by simp
  isDigit_fraction := by simp
  ne_nil := by simp

theorem leastSafe_value : leastSafe.value = -9007199254740991 := by
  have hdecimal : leastSafe.decimal = ⟨true, 90071992547409910000, -4⟩ := rfl
  rw [Literal.value, hdecimal]
  norm_num [Decimal.value, Decimal.magnitude]

theorem coerce_safe_integer_at_the_least :
    Spells " -009007199254740991000.0E-3\t" leastSafe ∧ leastSafe.exponent.natAbs < 65536 ∧
      leastSafe.value = (-9007199254740991 : Int) ∧
      Json.valueText (coerce " -009007199254740991000.0E-3\t" .number) =
        "-9007199254740991".toList ∧
      ∃ (y : Finite) (m : Int), toBinary64 leastSafe.decimal = .finite y ∧ y.value = m ∧
        |m| ≤ 9007199254740991 := by
  have hspells : Spells " -009007199254740991000.0E-3\t" leastSafe := by rfl
  have hpower : leastSafe.exponent.natAbs < 65536 := by decide
  have hvalue : leastSafe.value = (-9007199254740991 : Int) := by
    rw [leastSafe_value]
    norm_num
  have htext := coerce_safe_integer.1 _ _ _ hspells hpower hvalue (by decide)
  have hnumber : toBinary64 leastSafe.decimal =
      .finite ⟨true, 9007199254740991, 0, by decide⟩ := by decide +kernel
  have hwritten : Json.numberText (toBinary64 leastSafe.decimal) =
      "-9007199254740991".toList := by decide +kernel
  obtain ⟨d, hd, -⟩ := Json.exists_number ⟨true, 9007199254740991, 0, by decide⟩
  rw [← hnumber] at hd
  refine ⟨hspells, hpower, hvalue, htext.1, coerce_safe_integer.2 _ ⟨d, hd⟩ ?_ ?_ ?_⟩ <;>
    rw [hwritten] <;> decide

end Column

end Rowcast
