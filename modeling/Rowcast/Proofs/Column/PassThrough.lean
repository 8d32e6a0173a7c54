import Mathlib
import Rowcast.Proofs.Column.Canonical
import Rowcast.Proofs.Column.Definition

/-!
# Selecting every column

Without a definition a record passes as it is.  A definition that lists names and no more does the
same to each record whose columns it names, in whatever order and however often it names them
(`apply_of_all_names`).

The two ways share nothing.  The one copies the fields; the other looks each of them up among what
was read and converts it to text, which leaves it alone.  They meet because a name by itself is read
as the specification that keeps its name (`ofPart?_of_isName`), and because no two fields of a
record have one name, so that setting them one after the other gives their list again.
-/

namespace Rowcast.Column

open Text

/-- A column that keeps its name and its text. -/
def Spec.keep (name : String) : Spec := ⟨name, name, .text⟩

def Part.ofName (name : String) (h : IsWord name) : Part := ⟨.ofWord name h, none, none⟩

theorem Part.text_ofName {name : String} (h : IsWord name) :
    (Part.ofName name h).text = name.toList := by
  simp [ofName, text, aliasText, kindText, Spelling.text_ofWord]

theorem ofPart?_of_isName {name : String} (h : IsName name) :
    Spec.ofPart? name.toList = some (.keep name) := by
  have hkey : (Part.ofName name h.toIsWord).HasKey := h.ne_empty
  rw [← Part.text_ofName h.toIsWord, Part.ofPart?_text, Part.spec?, if_pos hkey]
  rfl

section Names

variable {names : List String} (hnames : ∀ name ∈ names, IsName name)

/-! ### What is read of names -/

include hnames

theorem splitOn_names (hne : names ≠ []) :
    (",".intercalate names).toList.splitOn ',' = names.map String.toList := by
  rw [String.toList_intercalate]
  refine List.splitOn_intercalate ',' ?_ (by simpa using hne)
  intro part hpart hcomma
  obtain ⟨name, hname, rfl⟩ := List.mem_map.mp hpart
  exact ((hnames name hname).plain ',' hcomma).1 rfl

theorem isAllBlank_names (hne : names ≠ []) : isAllBlank (",".intercalate names) = false := by
  obtain ⟨name, rest, rfl⟩ := List.exists_cons_of_ne_nil hne
  have hname := hnames name List.mem_cons_self
  obtain ⟨c, cs, hword⟩ :=
    List.exists_cons_of_ne_nil fun hnil => hname.ne_empty (String.toList_eq_nil_iff.mp hnil)
  refine isAllBlank_eq_false_iff.mpr ⟨c, ?_, hname.tidy.head c (by rw [hword]; rfl)⟩
  rw [String.toList_intercalate]
  refine subset_intercalate _ (List.mem_map_of_mem List.mem_cons_self) ?_
  rw [hword]
  exact List.mem_cons_self

theorem filterMap_ofPart?_names :
    (names.map String.toList).filterMap Spec.ofPart? = names.map Spec.keep := by
  rw [List.filterMap_map, ← List.filterMap_eq_map]
  refine List.filterMap_congr fun name hname => ?_
  rw [Function.comp_apply, ofPart?_of_isName (hnames name hname)]
  rfl

/-- A list of names is read as the set that keeps the columns with these names. -/
theorem exists_specs_of_names (hne : names ≠ []) :
    ∃ specs, specsOf (some (",".intercalate names)) = some specs ∧
      ∀ name ∈ names, specs.get? name = some (.keep name) := by
  refine ⟨_, if_neg (by simp [isAllBlank_names hnames hne]), fun name hname => ?_⟩
  rw [splitOn_names hnames hne, SpecSet.ofParts, filterMap_ofPart?_names hnames, List.map_map]
  exact Record.get?_ofList_map Spec.keep hname

end Names

/-! ### What is selected -/

/-- A column that keeps its name and its text passes as it is. -/
theorem cell_text (raw : Option String) : cell .text raw = Value.ofRaw raw := by
  cases raw <;> rfl

/-- **A projection that keeps every column passes the record as it is.** -/
theorem project_of_keep {specs : SpecSet} {record : RawRecord}
    (h : ∀ key ∈ record.keys, specs.get? key = some (.keep key)) :
    project specs record = record.map Value.ofRaw := by
  have hselected : selected specs record = (record.map Value.ofRaw).fields := by
    show _ = record.fields.map fun field => (field.1, Value.ofRaw field.2)
    rw [← List.filterMap_eq_map]
    refine List.filterMap_congr fun field hfield => ?_
    rw [h field.1 (List.mem_map_of_mem hfield)]
    show some (field.1, cell .text field.2) = _
    rw [cell_text]
    rfl
  refine Record.ext ?_
  rw [project, hselected, Record.fields_ofList (record.map Value.ofRaw).nodup]

/-- **Selecting every column by its name is selecting nothing.**  A record converts as without a
definition: each field stays in its place, with its text as it is, and null stays null. -/
theorem apply_of_all_names (record : RawRecord) {names : List String}
    (hnames : ∀ name ∈ names, IsName name) (hall : ∀ key ∈ record.keys, key ∈ names) :
    apply (specsOf (some (",".intercalate names))) record = apply none record ∧
    (apply (specsOf (some (",".intercalate names))) record).fields =
      record.fields.map fun field => (field.1, Value.ofRaw field.2) := by
  have hsame : apply (specsOf (some (",".intercalate names))) record = apply none record := by
    by_cases hne : names = []
    · subst hne
      rfl
    · obtain ⟨specs, hspecs, hget⟩ := exists_specs_of_names hnames hne
      rw [hspecs]
      exact project_of_keep fun key hkey => hget key (hall key hkey)
  exact ⟨hsame, by rw [hsame]; rfl⟩

/-- Blank space inside a name, a null field, and texts that other columns would convert. -/
def sampleFields : RawRecord :=
  .ofList [("is active", some " true "), ("count", none), ("é\u3000x", some "1e5")]

theorem apply_of_all_names_repeated :
    (∀ name ∈ ["count", "other", "é\u3000x", "count", "is active"], IsName name) ∧
    (∀ key ∈ sampleFields.keys, key ∈ ["count", "other", "é\u3000x", "count", "is active"]) ∧
    apply (specsOf (some "count,other,é\u3000x,count,is active")) sampleFields =
      apply none sampleFields ∧
    (apply (specsOf (some "count,other,é\u3000x,count,is active")) sampleFields).fields =
      [("is active", .text " true "), ("count", .null), ("é\u3000x", .text "1e5")] := by
  have hnames : ∀ name ∈ ["count", "other", "é\u3000x", "count", "is active"], IsName name := by
    decide
  have hall : ∀ key ∈ sampleFields.keys,
      key ∈ ["count", "other", "é\u3000x", "count", "is active"] := by decide
  exact ⟨hnames, hall, apply_of_all_names sampleFields hnames hall⟩

end Rowcast.Column
