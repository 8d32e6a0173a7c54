import Mathlib
import Rowcast.Proofs.Column.Projection
import Rowcast.Proofs.Column.Segments
import Rowcast.Proofs.Column.Union

/-!
# The order of the parts

Two definitions with the same parts in another order convert every record alike, as long as parts
with one key keep their order among themselves (`applyAll_reordered`).  Not even a target name that
several parts share brings the order back in: of several columns with one target the record decides
which is the last.

What a set of specifications says of a key depends on the parts with that key alone
(`get?_ofParts_filter`), and a projection asks a set for nothing but what it says of keys.  A blank
definition is one blank part, and no other definition has just that part (`eq_of_blank`).
-/

namespace Rowcast.Column

open Text

/-- The key of a part, empty where the part has none. -/
def keyOf (part : List Char) : String := piece (uptoSeparator part)

/-- The same parts in another order.  Parts with one key stand in the same order among themselves;
parts without a key may stand anywhere. -/
structure Reordering (parts others : List (List Char)) : Prop where
  perm : parts.Perm others
  sameKey : ∀ key ≠ "", parts.filter (keyOf · = key) = others.filter (keyOf · = key)

/-- The keys of the parts are the only ones that count. -/
theorem reordering_iff {parts others : List (List Char)} : Reordering parts others ↔
    parts.Perm others ∧ ∀ part ∈ parts, keyOf part ≠ "" →
      parts.filter (keyOf · = keyOf part) = others.filter (keyOf · = keyOf part) := by
  constructor
  · intro h
    exact ⟨h.perm, fun part _ => h.sameKey (keyOf part)⟩
  · rintro ⟨hperm, hsame⟩
    refine ⟨hperm, fun key hkey => ?_⟩
    by_cases hmem : ∃ part ∈ parts, keyOf part = key
    · obtain ⟨part, hpart, rfl⟩ := hmem
      exact hsame part hpart hkey
    · have hnone : ∀ part ∈ parts, ¬ keyOf part = key := fun part hpart heq =>
        hmem ⟨part, hpart, heq⟩
      have hother : ∀ part ∈ others, ¬ keyOf part = key := fun part hpart =>
        hnone part (hperm.mem_iff.mpr hpart)
      rw [List.filter_eq_nil_iff.mpr (by simpa using hnone),
        List.filter_eq_nil_iff.mpr (by simpa using hother)]

instance (parts others : List (List Char)) : Decidable (Reordering parts others) :=
  decidable_of_iff _ reordering_iff.symm

theorem ofPart?_of_keyless {part : List Char} (h : keyOf part = "") : Spec.ofPart? part = none :=
  if_pos h

theorem source_of_ofPart? {part : List Char} {spec : Spec} (h : Spec.ofPart? part = some spec) :
    spec.source = keyOf part := by
  unfold Spec.ofPart? at h
  simp only [Option.ite_none_left_eq_some, Option.some.injEq] at h
  rw [← h.2]
  exact source_ofAlias _ _ _

/-! ### What is said of a key -/

theorem get?_ofParts_singleton (part : List Char) (key : String) :
    (SpecSet.ofParts [part]).get? key = if keyOf part = key then Spec.ofPart? part else none := by
  cases hread : Spec.ofPart? part with
  | none =>
    rw [SpecSet.ofParts, List.filterMap_cons_none hread, ite_self]
    rfl
  | some spec =>
    rw [SpecSet.ofParts, List.filterMap_cons_some hread, Record.get?_ofList]
    show ([(spec.source, spec)] : List (String × Spec)).lookup key = _
    rw [Record.lookup_cons, source_of_ofPart? hread]
    exact if_congr eq_comm rfl rfl

/-- **Only the parts with a key say anything of it.** -/
theorem get?_ofParts_filter (parts : List (List Char)) (key : String) :
    (SpecSet.ofParts (parts.filter (keyOf · = key))).get? key =
      (SpecSet.ofParts parts).get? key := by
  induction parts using List.reverseRecOn with
  | nil => rfl
  | append_singleton parts part ih =>
    rw [List.filter_append, get?_ofParts_append, get?_ofParts_append, ih, get?_ofParts_singleton]
    by_cases hkey : keyOf part = key
    · rw [List.filter_cons_of_pos (by simpa using hkey), List.filter_nil, get?_ofParts_singleton]
    · rw [List.filter_cons_of_neg (by simpa using hkey), List.filter_nil, if_neg hkey]
      rfl

/-- Nothing is said of the empty key. -/
theorem get?_ofParts_empty (parts : List (List Char)) : (SpecSet.ofParts parts).get? "" = none := by
  have hnone : (parts.filter (keyOf · = "")).filterMap Spec.ofPart? = [] := by
    rw [List.filterMap_eq_nil_iff]
    intro part hpart
    exact ofPart?_of_keyless (by simpa using (List.mem_filter.mp hpart).2)
  rw [← get?_ofParts_filter, SpecSet.ofParts, hnone]
  rfl

theorem Reordering.get?_eq {parts others : List (List Char)} (h : Reordering parts others)
    (key : String) : (SpecSet.ofParts parts).get? key = (SpecSet.ofParts others).get? key := by
  by_cases hkey : key = ""
  · rw [hkey, get?_ofParts_empty, get?_ofParts_empty]
  · rw [← get?_ofParts_filter, h.sameKey key hkey, get?_ofParts_filter]

/-! ### Blank definitions -/

/-- A definition with the parts of a blank one is that definition. -/
theorem eq_of_blank {first second : String} (hblank : isAllBlank first = true)
    (h : (first.toList.splitOn ',').Perm (second.toList.splitOn ',')) : second = first := by
  have hall : ∀ c ∈ first.toList, isBlank c = true := by simpa [isAllBlank] using hblank
  rw [splitOn_of_blank hall, List.singleton_perm] at h
  have htext : [','].intercalate (second.toList.splitOn ',') = second.toList :=
    List.intercalate_splitOn ','
  rw [← h, List.intercalate_singleton] at htext
  exact String.toList_injective htext.symm

/-- A projection asks for nothing but what is said of keys. -/
theorem project_eq_of_get?_eq {specs others : SpecSet}
    (h : ∀ key, others.get? key = specs.get? key) : project others = project specs := by
  funext record
  refine project_congr ?_ fun field _ => h field.1
  unfold selectedFields
  simp only [h]

theorem apply_reordered {first second : String}
    (h : Reordering (first.toList.splitOn ',') (second.toList.splitOn ',')) :
    apply (specsOf (some first)) = apply (specsOf (some second)) := by
  by_cases hfirst : isAllBlank first = true
  · rw [eq_of_blank hfirst h.perm]
  by_cases hsecond : isAllBlank second = true
  · rw [eq_of_blank hsecond h.perm.symm]
  have hread : ∀ {definition : String}, ¬ isAllBlank definition = true →
      specsOf (some definition) = some (.ofParts (definition.toList.splitOn ',')) :=
    fun hblank => if_neg hblank
  rw [hread hfirst, hread hsecond]
  exact project_eq_of_get?_eq h.get?_eq

/-- **The order of the parts does not reach the output.**  Definitions that are reorderings of each
other convert all records alike.  Under a target stands the last field of the record that is given
that target, whatever part comes last. -/
theorem applyAll_reordered (records : List RawRecord) {first second : String}
    (h : Reordering (first.toList.splitOn ',') (second.toList.splitOn ',')) :
    applyAll (specsOf (some first)) records = applyAll (specsOf (some second)) records ∧
    ∀ specs, specsOf (some first) = some specs →
      ∀ record ∈ records, ∀ before key raw after spec,
        record.fields = before ++ (key, raw) :: after → specs.get? key = some spec →
        spec.target ∉ targets specs after →
        (apply (specsOf (some second)) record).get? spec.target =
          some (raw.elim .null fun text => coerce text spec.kind) := by
  refine ⟨by rw [applyAll, apply_reordered h, applyAll], ?_⟩
  intro specs hspecs record _ before key raw after spec hfields hspec hafter
  rw [← apply_reordered h, hspecs, ← cell_eq_elim]
  show (project specs record).get? spec.target = _
  refine get?_project_eq_some_iff.mpr ⟨selectedFields specs before, (key, raw),
    selectedFields specs after, spec, ?_, hspec, rfl, ?_, rfl⟩
  · rw [hfields, selectedFields, List.filter_append, List.filter_cons_of_pos (by simp [hspec])]
    rfl
  · rwa [targets_selectedFields]

/-- Three columns share a target, one of them has two parts, and two parts have no key. -/
def sharedTarget : String := "b:n@number,a@boolean,, :x,a:n,c:n@boolean"

def sharedTargetReordered : String := "c:n@boolean,a@boolean,b:n@number,a:n, :x,"

def sampleRow : RawRecord := .ofList [("a", some "1"), ("b", some "2"), ("c", some "T")]

theorem applyAll_reordered_of_shared_target :
    Reordering (sharedTarget.toList.splitOn ',') (sharedTargetReordered.toList.splitOn ',') ∧
    applyAll (specsOf (some sharedTarget)) [sampleRow] =
      applyAll (specsOf (some sharedTargetReordered)) [sampleRow] ∧
    (apply (specsOf (some sharedTargetReordered)) sampleRow).get? "n" = some (.boolean true) := by
  have h : Reordering (sharedTarget.toList.splitOn ',')
      (sharedTargetReordered.toList.splitOn ',') := by decide +kernel
  obtain ⟨hsame, hlast⟩ := applyAll_reordered [sampleRow] h
  refine ⟨h, hsame, ?_⟩
  exact hlast _ rfl sampleRow List.mem_cons_self [("a", some "1"), ("b", some "2")] "c" (some "T")
    [] ⟨"c", "n", .boolean⟩ rfl (by decide +kernel) (by simp [targets])

end Rowcast.Column
