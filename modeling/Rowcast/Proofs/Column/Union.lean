import Mathlib
import Rowcast.Proofs.Column.Grammar

/-!
# Definitions put one after the other

Two definitions with a comma between them are one definition.  It selects the columns that either
of them selects, and where both select a column the second one says how (`ofDefinition?_append`).

Nothing is asked of the two.  The comma between them ends the last part of the first, so the parts
of the whole are the parts of one and then those of the other (`splitOn_append_comma`), whatever
commas they hold themselves.  A blank definition has one part, and a blank part has no key, so the
definition that would let records pass unchanged adds nothing here (`get?_selection`).
-/

namespace Rowcast.Column

open Text

/-- What a definition selects, where a blank one selects nothing. -/
def selection (definition : String) : SpecSet := (SpecSet.ofDefinition? definition).getD .empty

theorem ofPart?_of_blank {part : List Char} (h : ∀ c ∈ part, isBlank c = true) :
    Spec.ofPart? part = none := by
  have hfront : ∀ c ∈ uptoSeparator part, isBlank c = true := fun c hc =>
    h c ((List.takeWhile_prefix _).subset hc)
  have hkey : piece (uptoSeparator part) = "" := by rw [piece, strip_eq_nil hfront, String.ofList_nil]
  rw [Spec.ofPart?]
  exact if_pos hkey

theorem splitOn_of_blank {s : List Char} (h : ∀ c ∈ s, isBlank c = true) : s.splitOn ',' = [s] := by
  refine List.splitOn_eq_singleton fun hcomma => ?_
  have hblank := h ',' hcomma
  exact absurd hblank (by decide)

theorem splitOn_append_comma (first second : String) :
    (first ++ "," ++ second).toList.splitOn ',' =
      first.toList.splitOn ',' ++ second.toList.splitOn ',' := by
  have htext : (first ++ "," ++ second).toList = first.toList ++ ',' :: second.toList := by simp
  rw [htext]
  exact List.splitOnP_append_cons first.toList second.toList (by simp)

/-- Blank or not, a definition selects what its parts say. -/
theorem get?_selection (definition key : String) :
    (selection definition).get? key =
      (SpecSet.ofParts (definition.toList.splitOn ',')).get? key := by
  unfold selection SpecSet.ofDefinition?
  split
  · next hblank =>
    have hall : ∀ c ∈ definition.toList, isBlank c = true := by simpa [isAllBlank] using hblank
    rw [splitOn_of_blank hall, SpecSet.ofParts, List.filterMap_cons_none (ofPart?_of_blank hall)]
    rfl
  · rfl

theorem get?_ofParts_append (parts more : List (List Char)) (key : String) :
    (SpecSet.ofParts (parts ++ more)).get? key =
      ((SpecSet.ofParts more).get? key).or ((SpecSet.ofParts parts).get? key) := by
  rw [SpecSet.ofParts, List.filterMap_append, List.map_append, Record.get?_ofList_append]
  rfl

/-- A comma is not blank, so the whole is a definition even where both parts are blank. -/
theorem isAllBlank_append_comma (first second : String) :
    isAllBlank (first ++ "," ++ second) = false :=
  isAllBlank_eq_false_iff.mpr ⟨',', by simp, by decide⟩

/-- **Definitions are joined by a comma, and the second is heard first.**  The whole is a definition,
and for each column it has what the second one says of it, or else what the first one says. -/
theorem ofDefinition?_append (first second : String) :
    ∃ specs, SpecSet.ofDefinition? (first ++ "," ++ second) = some specs ∧
      ∀ key, specs.get? key =
        ((selection second).get? key).or ((selection first).get? key) := by
  refine ⟨_, by rw [SpecSet.ofDefinition?, isAllBlank_append_comma, if_neg Bool.false_ne_true], ?_⟩
  intro key
  rw [splitOn_append_comma, get?_ofParts_append, get?_selection, get?_selection]

end Rowcast.Column
