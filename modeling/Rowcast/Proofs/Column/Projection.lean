import Mathlib
import Rowcast.Column.Projection
import Rowcast.Proofs.Record

/-!
# What a projection keeps

A field of a record is selected when its column has a specification.  A projection sets the value
of each selected field under its target name, one after the other, so the facts about pairs set one
after the other tell all of it: each target name comes once, in the order in which the selected
fields first have it, and the last selected field with a target decides its value
(`project_first_place_last_value`).  Fields that are not selected and specifications that select no
field leave no trace (`project_congr`).
-/

namespace Rowcast.Column

/-- The fields whose column is selected, in their order. -/
def selectedFields (specs : SpecSet) (fields : List (String × Option String)) :
    List (String × Option String) :=
  fields.filter fun field => (specs.get? field.1).isSome

def targets (specs : SpecSet) (fields : List (String × Option String)) : List String :=
  fields.filterMap fun field => (specs.get? field.1).map Spec.target

/-- What a projection sets for a field. -/
def setting? (specs : SpecSet) (field : String × Option String) : Option (String × Value) :=
  (specs.get? field.1).map fun spec => (spec.target, cell spec.kind field.2)

theorem setting?_eq_some_iff {specs : SpecSet} {field : String × Option String} {name : String}
    {value : Value} : setting? specs field = some (name, value) ↔
      ∃ spec, specs.get? field.1 = some spec ∧ spec.target = name ∧
        value = cell spec.kind field.2 := by
  simp only [setting?, Option.map_eq_some_iff, Prod.mk.injEq]
  exact exists_congr fun spec => and_congr_right fun _ => and_congr_right fun _ => eq_comm

theorem selected_eq_filterMap (specs : SpecSet) (record : RawRecord) :
    selected specs record = (selectedFields specs record.fields).filterMap (setting? specs) := by
  rw [selectedFields, List.filterMap_filter]
  refine List.filterMap_congr fun field _ => ?_
  unfold setting?
  cases specs.get? field.1 <;> rfl

theorem names_settings (specs : SpecSet) (fields : List (String × Option String)) :
    (fields.filterMap (setting? specs)).map Prod.fst = targets specs fields := by
  rw [List.map_filterMap]
  refine List.filterMap_congr fun field _ => ?_
  rw [setting?, Option.map_map]
  rfl

theorem length_targets_selectedFields (specs : SpecSet) (fields : List (String × Option String)) :
    (targets specs (selectedFields specs fields)).length =
      (selectedFields specs fields).length := by
  rw [targets, List.filterMap_length_eq_length]
  intro field hfield
  rw [Option.isSome_map]
  exact (List.mem_filter.mp hfield).2

/-- Fields that are not selected have no target. -/
theorem targets_selectedFields (specs : SpecSet) (fields : List (String × Option String)) :
    targets specs (selectedFields specs fields) = targets specs fields := by
  unfold targets selectedFields
  rw [List.filterMap_filter]
  refine List.filterMap_congr fun field _ => ?_
  cases specs.get? field.1 <;> rfl

/-! ### Place and value -/

theorem keys_project (specs : SpecSet) (record : RawRecord) :
    (project specs record).keys =
      (targets specs (selectedFields specs record.fields)).eraseDups := by
  rw [project, Record.keys_ofList, selected_eq_filterMap, names_settings]

theorem cell_eq_elim (kind : Kind) (raw : Option String) :
    cell kind raw = raw.elim .null fun text => coerce text kind := by
  cases raw <;> rfl

theorem get?_project_eq_some_iff {specs : SpecSet} {record : RawRecord} {name : String}
    {value : Value} : (project specs record).get? name = some value ↔
      ∃ before field after spec, selectedFields specs record.fields = before ++ field :: after ∧
        specs.get? field.1 = some spec ∧ spec.target = name ∧ name ∉ targets specs after ∧
        value = cell spec.kind field.2 := by
  rw [project, Record.get?_ofList_eq_some_iff, selected_eq_filterMap]
  constructor
  · rintro ⟨before, after, hsplit, hafter⟩
    obtain ⟨front, rest, hfields, -, hrest⟩ := List.filterMap_eq_append_iff.mp hsplit
    obtain ⟨skipped, field, later, rfl, -, hfield, rfl⟩ := List.filterMap_eq_cons_iff.mp hrest
    obtain ⟨spec, hspec, htarget, hvalue⟩ := setting?_eq_some_iff.mp hfield
    rw [names_settings] at hafter
    exact ⟨front ++ skipped, field, later, spec, by rw [hfields, List.append_assoc], hspec,
      htarget, hafter, hvalue⟩
  · rintro ⟨before, field, after, spec, hfields, hspec, htarget, hafter, hvalue⟩
    have hfield := setting?_eq_some_iff.mpr ⟨spec, hspec, htarget, hvalue⟩
    refine ⟨before.filterMap (setting? specs), after.filterMap (setting? specs), ?_, ?_⟩
    · rw [hfields, List.filterMap_append, List.filterMap_cons_some hfield]
    · rw [names_settings]
      exact hafter

theorem keys_project_of_nodup {specs : SpecSet} {record : RawRecord}
    (h : (targets specs (selectedFields specs record.fields)).Nodup) :
    (project specs record).keys = targets specs (selectedFields specs record.fields) := by
  rw [← names_settings] at h
  rw [Record.keys, project, selected_eq_filterMap, Record.fields_ofList h, names_settings]

/-! ### What leaves no trace -/

/-- **A projection sees the selected fields and their specifications, and nothing else.** -/
theorem project_congr {specs others : SpecSet} {record other : RawRecord}
    (hfields : selectedFields others other.fields = selectedFields specs record.fields)
    (hspecs : ∀ field ∈ selectedFields specs record.fields,
      others.get? field.1 = specs.get? field.1) :
    project others other = project specs record := by
  rw [project, project, selected_eq_filterMap, selected_eq_filterMap, hfields]
  refine congrArg Record.ofList (List.filterMap_congr fun field hfield => ?_)
  rw [setting?, hspecs field hfield, setting?]

theorem selectedFields_setField {specs : SpecSet} {name : String} (h : specs.get? name = none)
    (raw : Option String) (fields : List (String × Option String)) :
    selectedFields specs (setField name raw fields) = selectedFields specs fields := by
  induction fields with
  | nil => simp [setField, selectedFields, h]
  | cons field rest ih =>
    obtain ⟨key, old⟩ := field
    unfold selectedFields at ih ⊢
    by_cases hkey : key = name
    · simp [setField, hkey, h]
    · rw [setField, if_neg hkey, List.filter_cons, List.filter_cons, ih]

/-- A column without a specification has no say. -/
theorem project_set_of_get?_eq_none {specs : SpecSet} {name : String} (h : specs.get? name = none)
    (record : RawRecord) (raw : Option String) :
    project specs (record.set name raw) = project specs record :=
  project_congr (selectedFields_setField h raw record.fields) fun _ _ => rfl

/-- **What a projection is.**  The target names of the selected fields come once each, in the order
of their first field.  Under a target stands what the last selected field with it becomes.  Where
no two selected fields share a target, each keeps its place.  Other fields, and specifications of
columns that the record lacks, do nothing. -/
theorem project_first_place_last_value (specs : SpecSet) (record : RawRecord) :
    (project specs record).keys =
        (targets specs (selectedFields specs record.fields)).eraseDups ∧
    (∀ name value, (project specs record).get? name = some value ↔
      ∃ before key raw after spec,
        selectedFields specs record.fields = before ++ (key, raw) :: after ∧
        specs.get? key = some spec ∧ spec.target = name ∧ name ∉ targets specs after ∧
        value = raw.elim .null fun text => coerce text spec.kind) ∧
    ((targets specs (selectedFields specs record.fields)).Nodup →
      (project specs record).keys = targets specs (selectedFields specs record.fields) ∧
        (project specs record).size = (selectedFields specs record.fields).length) ∧
    (∀ (others : SpecSet) (other : RawRecord),
      selectedFields others other.fields = selectedFields specs record.fields →
      (∀ field ∈ selectedFields specs record.fields, others.get? field.1 = specs.get? field.1) →
      project others other = project specs record) := by
  refine ⟨keys_project specs record, ?value, ?place, fun others other => project_congr⟩
  case value =>
    intro name value
    simp only [get?_project_eq_some_iff, Prod.exists, cell_eq_elim]
  case place =>
    intro hnodup
    have hkeys := keys_project_of_nodup hnodup
    refine ⟨hkeys, ?_⟩
    have hsize : (project specs record).size = (project specs record).keys.length :=
      (List.length_map _).symm
    rw [hsize, hkeys, length_targets_selectedFields]

/-- A name that two columns are given keeps the place of the first and has the value of the second. -/
example : (project
    (.ofList [("b", ⟨"b", "n", .number⟩), ("a", ⟨"a", "n", .boolean⟩), ("c", ⟨"c", "a", .text⟩)])
    (.ofList [("a", some "x"), ("c", some "y"), ("d", some "z"), ("b", none)])).fields =
      [("n", .null), ("a", .text "y")] := by decide +kernel

end Rowcast.Column
