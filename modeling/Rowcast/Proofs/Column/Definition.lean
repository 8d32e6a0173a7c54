import Mathlib
import Rowcast.Proofs.Column.Grammar
import Rowcast.Proofs.Text.Separator

/-!
# What a definition selects

A definition is read as a map from keys to specifications.  Each key goes to what the last part
with that key means, and only the keys of parts are in the map: `ofDefinition?_definitionText`, for
every way to write a definition that the grammar allows.

The look-up in the map is a search for the last part with the key (`get?_of_parts`), because of
several pairs with one name a record keeps the value set last.
-/

namespace Rowcast.Column

open Text

/-- A definition with a key is not blank, for a word does not start with blank space. -/
theorem isAllBlank_definitionText {parts : List Part} (h : ∃ part ∈ parts, part.HasKey) :
    isAllBlank (definitionText parts) = false := by
  obtain ⟨part, hpart, hkey⟩ := h
  have hne : part.key.word.toList ≠ [] := fun hnil => hkey (String.toList_eq_nil_iff.mp hnil)
  obtain ⟨c, rest, hword⟩ := List.exists_cons_of_ne_nil hne
  have hc : isBlank c = false := part.key.isWord.tidy.head c (by rw [hword]; rfl)
  have hmem : c ∈ part.text := by simp [Part.text, Spelling.text, hword]
  refine isAllBlank_eq_false_iff.mpr ⟨c, ?_, hc⟩
  rw [definitionText, String.toList_ofList]
  exact subset_intercalate [','] (List.mem_map_of_mem hpart) hmem

theorem lookup_specs (parts : List Part) (key : String) :
    ((parts.filterMap Part.spec?).map fun spec => (spec.source, spec)).lookup key =
      (parts.find? fun part => decide (part.HasKey ∧ part.key.word = key)).map Part.spec := by
  induction parts with
  | nil => rfl
  | cons part rest ih =>
    by_cases hkey : part.HasKey
    · have hspec : part.spec? = some part.spec := if_pos hkey
      have hsource : part.spec.source = part.key.word := rfl
      rw [List.filterMap_cons_some hspec, List.map_cons, Record.lookup_cons, ih, hsource]
      by_cases h : part.key.word = key
      · rw [if_pos h.symm, List.find?_cons_of_pos (by simp [hkey, h]), Option.map_some]
      · rw [if_neg (fun heq => h heq.symm), List.find?_cons_of_neg (by simp [h])]
    · have hspec : part.spec? = none := if_neg hkey
      rw [List.filterMap_cons_none hspec, ih, List.find?_cons_of_neg (by simp [hkey])]

/-- **Of several parts with one key the last counts.** -/
theorem get?_of_parts (parts : List Part) (key : String) :
    (Record.ofList ((parts.filterMap Part.spec?).map fun spec => (spec.source, spec))).get? key =
      (parts.reverse.find? fun part => decide (part.HasKey ∧ part.key.word = key)).map
        Part.spec := by
  rw [Record.get?_ofList, ← List.map_reverse, ← List.filterMap_reverse, lookup_specs]

/-- **A definition is read as it was meant**, however it is written: each key goes to what the last
part with that key means, and no other key goes anywhere. -/
theorem ofDefinition?_definitionText {parts : List Part} (h : ∃ part ∈ parts, part.HasKey) :
    ∃ specs, SpecSet.ofDefinition? (definitionText parts) = some specs ∧
      ∀ key spec, specs.get? key = some spec ↔
        ∃ before part after, parts = before ++ part :: after ∧
          part.HasKey ∧ part.key.word = key ∧ (∀ later ∈ after, later.key.word ≠ key) ∧
          spec = part.spec := by
  have hne : parts ≠ [] := by
    rintro rfl
    simp at h
  refine ⟨_, ofDefinition?_of_parts hne (isAllBlank_definitionText h), fun key spec => ?_⟩
  rw [get?_of_parts, Option.map_eq_some_iff]
  constructor
  · rintro ⟨part, hfind, rfl⟩
    obtain ⟨hpart, after, before, hreverse, hafter⟩ := List.find?_eq_some_iff_append.mp hfind
    obtain ⟨hkey, rfl⟩ := of_decide_eq_true hpart
    refine ⟨before.reverse, part, after.reverse, ?_, hkey, rfl, ?_, rfl⟩
    · simpa using List.reverse_eq_iff.mp hreverse
    · intro later hlater heq
      have hother := hafter later (List.mem_reverse.mp hlater)
      have hlaterKey : later.HasKey := fun hnil => hkey (heq ▸ hnil)
      simp [hlaterKey, heq] at hother
  · rintro ⟨before, part, after, rfl, hkey, rfl, hafter, rfl⟩
    refine ⟨part, List.find?_eq_some_iff_append.mpr ⟨by simp [hkey], after.reverse,
      before.reverse, by simp, ?_⟩, rfl⟩
    intro later hlater
    simp [hafter later (List.mem_reverse.mp hlater)]

def spaced (word : String) (h : IsWord word) : Spelling where
  before := [' ']
  word := word
  after := ['\u3000', '\t']
  blank_before := by simp [isBlank]
  isWord := h
  blank_after := by simp [isBlank]

/-- Two parts with one key, and parts without a key around them. -/
def sampleParts : List Part :=
  [.blank,
    ⟨spaced "is active" (by decide), none, some (spaced "number" (by decide))⟩,
    ⟨.ofWord "" isWord_empty, some (spaced "lost" (by decide)), some (spaced "number" (by decide))⟩,
    ⟨spaced "is active" (by decide), some (spaced "on" (by decide)),
      some (spaced "boolean" (by decide))⟩,
    .blank]

theorem ofDefinition?_sampleParts :
    (∃ part ∈ sampleParts, part.HasKey) ∧
    definitionText sampleParts =
      ", is active\u3000\t@ number\u3000\t,: lost\u3000\t@ number\u3000\t," ++
        " is active\u3000\t: on\u3000\t@ boolean\u3000\t," ∧
    ∃ specs, SpecSet.ofDefinition? (definitionText sampleParts) = some specs ∧
      specs.get? "is active" = some ⟨"is active", "on", .boolean⟩ := by
  have hkey : ∃ part ∈ sampleParts, part.HasKey :=
    ⟨sampleParts[1], List.getElem_mem _, by decide⟩
  obtain ⟨specs, hspecs, hget⟩ := ofDefinition?_definitionText hkey
  refine ⟨hkey, by decide +kernel, specs, hspecs, (hget _ _).mpr ?_⟩
  exact ⟨sampleParts.take 3, sampleParts[3], [.blank], rfl, by decide, rfl, by decide, by decide⟩

end Rowcast.Column
