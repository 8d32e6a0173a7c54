import Mathlib
import Rowcast.Json.Text
import Rowcast.Proofs.Column.Coercion
import Rowcast.Proofs.Json.NumberLiteral

/-!
# Numbers that are converted again

What is written of a finite number spells the number: converting the text once more gives the number
back, a zero without its sign, and the text is the same as before (`coerce_written`).  Texts that do
not become numbers are not changed at all, so a column of numbers can be converted as often as one
likes.
-/

namespace Rowcast

namespace Binary64

theorem value_unsignZero (x : Finite) : x.unsignZero.value = x.value := by
  by_cases hx : x.significand = 0
  · rw [value_of_significand_zero hx, Finite.unsignZero, if_pos hx]
    exact value_of_significand_zero rfl
  · rw [unsignZero_of_ne hx]

theorem numberText_unsignZero (x : Finite) :
    Json.numberText (.finite x.unsignZero) = Json.numberText (.finite x) := by
  by_cases hx : x.significand = 0
  · rw [Json.numberText_of_eq hx, Finite.unsignZero, if_pos hx]
    exact Json.numberText_of_eq rfl
  · rw [unsignZero_of_ne hx]

end Binary64

namespace Column

open Binary64 Decimal

/-- A literal has no blank space around it to lose. -/
theorem spells_text (l : Literal) : Spells (String.ofList l.text) l := by
  have htidy : Text.Tidy Text.isBlank l.text :=
    ⟨fun _ hc => Literal.isBlank_of_mem (List.mem_of_mem_head? hc),
      fun _ hc => Literal.isBlank_of_mem (List.mem_of_getLast? hc)⟩
  rw [Spells, String.toList_ofList, htidy.strip_eq]

/-- **The text of a number becomes the number.** -/
theorem coerce_numberText (x : Finite) :
    coerce (String.ofList (Json.numberText (.finite x))) .number =
      .number (.finite x.unsignZero) := by
  obtain ⟨l, htext, hpower, hround⟩ := Json.exists_literal_numberText x
  have hspells := spells_text l
  rw [htext] at hspells
  refine coerce_number_eq ?_
  rw [finiteNumber?, ← hspells, read?_text l hpower]
  simp only [hround]

/-- A text stays as it is, or it becomes a finite number. -/
theorem coerce_number_cases (raw : String) : coerce raw .number = .text raw ∨
    ∃ x : Finite, coerce raw .number = .number (.finite x) := by
  cases hnumber : finiteNumber? raw with
  | none => exact .inl (coerce_number_of_none hnumber)
  | some y =>
    obtain ⟨⟨x, rfl⟩, -⟩ := finiteNumber?_eq_some_iff.mp hnumber
    exact .inr ⟨x, coerce_number_eq hnumber⟩

/-- **Converting what has been converted changes nothing.**  The JSON text of a finite number
becomes the number again, except that a zero loses its sign, and is written in the same way.  Hence
a column of numbers, whatever its texts are, comes out of a second conversion as it went in. -/
theorem coerce_written :
    (∀ x : Finite,
      coerce (String.ofList (Json.valueText (.number (.finite x)))) .number =
          .number (.finite x.unsignZero) ∧
        x.unsignZero.value = x.value ∧
        Json.valueText (.number (.finite x.unsignZero)) =
          Json.valueText (.number (.finite x))) ∧
      ∀ raw : String, Json.valueText (coerce (coerce raw .number).display .number) =
        Json.valueText (coerce raw .number) := by
  refine ⟨fun x => ⟨coerce_numberText x, value_unsignZero x, numberText_unsignZero x⟩, ?_⟩
  intro raw
  rcases coerce_number_cases raw with hraw | ⟨x, hx⟩
  · have hdisplay : (Value.text raw).display = raw := rfl
    rw [hraw, hdisplay, hraw]
  · have hdisplay : (Value.number (.finite x)).display =
        String.ofList (Json.numberText (.finite x)) := rfl
    rw [hx, hdisplay, coerce_numberText]
    exact numberText_unsignZero x

end Column

end Rowcast
