import Mathlib
import Rowcast.Column.Coercion
import Rowcast.Proofs.Number.Literal
import Rowcast.Proofs.Number.Range

/-!
# Which texts become numbers

A text spells a literal when it is that literal with blank space around it.  In a column of numbers
the texts that spell a literal below `overflowBound` become the number nearest to it, and all other
texts stay (`coerce_number_iff`).

A written exponent has to be one that the reader takes in full; `finiteNumber?_eq_filter` has no
such condition, and it says that the words for infinities and for what is not a number count for
nothing.
-/

namespace Rowcast.Column

open Binary64 Decimal

/-- The text is the literal, blank space around it aside. -/
def Spells (raw : String) (l : Literal) : Prop := l.text = Text.strip Text.isBlank raw.toList

def isFinite : Binary64 → Bool
  | .finite _ => true
  | _ => false

/-- The finite number of a text is the number that it spells, if that is finite. -/
theorem finiteNumber?_eq_filter (raw : String) :
    finiteNumber? raw = (Binary64.read? (Text.strip Text.isBlank raw.toList)).filter isFinite := by
  unfold finiteNumber? Binary64.read?
  generalize Text.strip Text.isBlank raw.toList = s
  cases Decimal.read? s with
  | some d =>
    dsimp only
    cases d.toBinary64 <;> rfl
  | none =>
    dsimp only
    split_ifs <;> rfl

theorem finiteNumber?_eq_some_iff {raw : String} {x : Binary64} : finiteNumber? raw = some x ↔
    (∃ y, x = .finite y) ∧ Binary64.read? (Text.strip Text.isBlank raw.toList) = some x := by
  rw [finiteNumber?_eq_filter, Option.filter_eq_some_iff, and_comm]
  refine and_congr_left fun _ => ?_
  cases x with
  | finite y => exact iff_of_true rfl ⟨y, rfl⟩
  | infinite | notANumber => exact iff_of_false Bool.false_ne_true (by simp)

variable {raw : String} {x : Binary64}

theorem coerce_number_eq (h : finiteNumber? raw = some x) : coerce raw .number = .number x := by
  rw [coerce, h]
  rfl

theorem coerce_number_of_none (h : finiteNumber? raw = none) : coerce raw .number = .text raw := by
  rw [coerce, h]
  rfl

section Spells

variable {l : Literal} (h : Spells raw l) (hpower : l.exponent.natAbs < exponentBound)

include h hpower

/-- **A literal in range becomes the number nearest to it.** -/
theorem coerce_of_lt (hlt : |l.value| < overflowBound) :
    ∃ x : Finite, coerce raw .number = .number (.finite x) ∧ IsNearest l.value x := by
  obtain ⟨x, hx, hnearest⟩ := exists_toBinary64_of_lt hlt
  refine ⟨x, coerce_number_eq ?_, hnearest⟩
  rw [finiteNumber?, ← h, read?_text l hpower]
  simp only [hx]

/-- A literal out of range stays a text. -/
theorem coerce_of_overflow (hge : overflowBound ≤ |l.value|) : coerce raw .number = .text raw := by
  refine coerce_number_of_none ?_
  rw [finiteNumber?, ← h, read?_text l hpower]
  simp only [toBinary64_of_overflow hge]

end Spells

/-- A text that spells no literal stays. -/
theorem coerce_of_no_literal (h : ∀ l, ¬ Spells raw l) : coerce raw .number = .text raw := by
  refine coerce_number_of_none ?_
  have hread : Decimal.read? (Text.strip Text.isBlank raw.toList) = none := by
    rw [Option.eq_none_iff_forall_ne_some]
    intro d hd
    obtain ⟨l, hl⟩ := exists_literal_of_read? hd
    exact h l hl
  rw [finiteNumber?, hread]

/-- **Which texts become numbers**: those that spell a literal whose magnitude is below the bound.
All others stay as they are, and the number is the one nearest to the literal. -/
theorem coerce_number_iff (hpower : ∀ l, Spells raw l → l.exponent.natAbs < 65536) :
    ((∃ x, coerce raw .number = .number x) ↔ ∃ l, Spells raw l ∧ |l.value| < overflowBound) ∧
      ((¬ ∃ l, Spells raw l ∧ |l.value| < overflowBound) → coerce raw .number = .text raw) ∧
      ∀ l, Spells raw l → |l.value| < overflowBound →
        ∃ x : Finite, coerce raw .number = .number (.finite x) ∧ IsNearest l.value x := by
  have hnearest : ∀ l, Spells raw l → |l.value| < overflowBound →
      ∃ x : Finite, coerce raw .number = .number (.finite x) ∧ IsNearest l.value x :=
    fun l hl => coerce_of_lt hl (hpower l hl)
  have htext : (¬ ∃ l, Spells raw l ∧ |l.value| < overflowBound) →
      coerce raw .number = .text raw := by
    intro hno
    by_cases hliteral : ∃ l, Spells raw l
    · obtain ⟨l, hl⟩ := hliteral
      exact coerce_of_overflow hl (hpower l hl) (not_lt.mp fun hlt => hno ⟨l, hl, hlt⟩)
    · exact coerce_of_no_literal fun l hl => hliteral ⟨l, hl⟩
  refine ⟨⟨?_, ?_⟩, htext, hnearest⟩
  · rintro ⟨x, hx⟩
    by_contra hno
    rw [htext hno] at hx
    exact Value.noConfusion hx
  · rintro ⟨l, hl, hlt⟩
    obtain ⟨x, hx, -⟩ := hnearest l hl hlt
    exact ⟨.finite x, hx⟩

/-- The literal `-12.5E-3`, in which no part is missing. -/
def everyPart : Literal where
  sign := .minus
  whole := ['1', '2']
  fraction? := some ['5']
  power? := some ⟨'E', .minus, ['3'], by decide, by decide, by simp⟩
  isDigit_whole := by simp
  isDigit_fraction := by simp
  ne_nil := by decide

theorem everyPart_value : everyPart.value = -(1 / 80) := by
  have hdecimal : everyPart.decimal = ⟨true, 125, -4⟩ := rfl
  rw [Literal.value, hdecimal]
  norm_num [Decimal.value, Decimal.magnitude]

theorem coerce_number_iff_of_everyPart :
    (∀ l, Spells " -12.5E-3\t" l → l.exponent.natAbs < 65536) ∧
      ∃ x : Finite, coerce " -12.5E-3\t" .number = .number (.finite x) ∧
        IsNearest (-(1 / 80)) x := by
  have hspells : Spells " -12.5E-3\t" everyPart := by rfl
  have hpower : ∀ l, Spells " -12.5E-3\t" l → l.exponent.natAbs < 65536 := by
    intro l hl
    rw [Literal.text_injective (hl.trans hspells.symm)]
    decide
  have hlt : |everyPart.value| < overflowBound := by
    have hunit : (1 : ℚ) ≤ 2 ^ greatestExponent := one_le_zpow₀ (by norm_num) (by decide)
    rw [everyPart_value, overflowBound_eq, abs_neg, abs_of_pos (by norm_num)]
    linarith
  have hnearest := (coerce_number_iff hpower).2.2 everyPart hspells hlt
  rw [everyPart_value] at hnearest
  exact ⟨hpower, hnearest⟩

end Rowcast.Column
