import Mathlib
import Rowcast.Json.Text
import Rowcast.Proofs.Column.Coercion
import Rowcast.Proofs.Column.Projection
import Rowcast.Proofs.Json.NumberText
import Rowcast.Proofs.Json.Reading
import Rowcast.Proofs.Text.LowerCase

/-!
# Where values come from

Each value of an output record comes from one field of the raw record, and `ComesFrom` says which it
is, given the text of that field and what its column asks for.  Null stands for a field without
text and for nothing else: a number is finite, so that its JSON text is no `null` either
(`ComesFrom.valueText_eq_null_iff`).

Truth values are spelled in any case of their letters.  The spellings are counted in the lower case
of ASCII; `spellsTruth_iff_of_lowerCase` says that the lower case of all of Unicode has no others.
-/

namespace Rowcast.Column

/-! ## Truth values -/

def truthWords : Bool → List String
  | true => ["true", "t", "1"]
  | false => ["false", "f", "0"]

/-- The text is a word for a truth value, in any case of its ASCII letters. -/
def SpellsTruth (raw : String) (b : Bool) : Prop :=
  ∃ word ∈ truthWords b, Text.eqIgnoringAsciiCase raw word = true

theorem plain_of_mem_truthWords {b : Bool} {word : String} (h : word ∈ truthWords b) :
    Text.lowerAscii word.toList = word.toList ∧ ∀ c ∈ word.toList, Text.IsPlain c := by
  cases b with
  | true | false =>
    simp only [truthWords, List.mem_cons, List.not_mem_nil, or_false] at h
    rcases h with rfl | rfl | rfl <;> exact ⟨rfl, by simp [Text.IsPlain]⟩

theorem spellsTruth_iff {raw : String} {b : Bool} :
    SpellsTruth raw b ↔ String.ofList (Text.lowerAscii raw.toList) ∈ truthWords b := by
  have hword : ∀ word ∈ truthWords b, Text.eqIgnoringAsciiCase raw word = true ↔
      String.ofList (Text.lowerAscii raw.toList) = word := by
    intro word hmem
    rw [Text.eqIgnoringAsciiCase, (plain_of_mem_truthWords hmem).1, beq_iff_eq,
      ← String.toList_inj, String.toList_ofList]
  constructor
  · rintro ⟨word, hmem, heq⟩
    rwa [(hword word hmem).mp heq]
  · intro hmem
    exact ⟨_, hmem, (hword _ hmem).mpr rfl⟩

theorem truthValue?_eq_some_iff {raw : String} {b : Bool} :
    truthValue? raw = some b ↔ SpellsTruth raw b := by
  rw [spellsTruth_iff, truthValue?]
  generalize String.ofList (Text.lowerAscii raw.toList) = word
  split_ifs with htrue hfalse
  · cases b with
    | true => simpa [truthWords] using htrue
    | false => rcases htrue with rfl | rfl | rfl <;> decide
  · cases b with
    | true => rcases hfalse with rfl | rfl | rfl <;> decide
    | false => simpa [truthWords] using hfalse
  · cases b with
    | true => simpa [truthWords] using htrue
    | false => simpa [truthWords] using hfalse

/-- **No other spellings**: whichever lower case of all of Unicode is taken, the texts that are
words for a truth value in it are the same. -/
theorem spellsTruth_iff_of_lowerCase {raw : String} {t : List Char}
    (h : Text.LowerCase raw.toList t) {b : Bool} :
    SpellsTruth raw b ↔ String.ofList t ∈ truthWords b := by
  have hword : ∀ word ∈ truthWords b, String.ofList (Text.lowerAscii raw.toList) = word ↔
      String.ofList t = word := by
    intro word hmem
    rw [← String.toList_inj, String.toList_ofList, ← String.toList_inj, String.toList_ofList]
    exact (h.eq_plain_iff (plain_of_mem_truthWords hmem).2).symm
  rw [spellsTruth_iff]
  constructor
  · intro hmem
    rwa [(hword _ hmem).mp rfl]
  · intro hmem
    rwa [(hword _ hmem).mpr rfl]

/-! ## Values and the fields they come from -/

/-- What becomes of a raw field in a column of the given kind; `none` is the kind of a column of a
record that passes as it is. -/
structure ComesFrom (kind? : Option Kind) (raw : Option String) (value : Value) : Prop where
  null : value = .null ↔ raw = none
  text : ∀ s, value = .text s → raw = some s
  number : ∀ x, value = .number x ↔ kind? = some .number ∧ (∃ y, x = .finite y) ∧
    ∃ s, raw = some s ∧ Binary64.read? (Text.strip Text.isBlank s.toList) = some x
  boolean : ∀ b, value = .boolean b ↔
    kind? = some .boolean ∧ ∃ s, raw = some s ∧ SpellsTruth s b

theorem comesFrom_null (kind? : Option Kind) : ComesFrom kind? none .null where
  null := by simp
  text := by simp
  number := by simp
  boolean := by simp

/-- A text stays where it is neither a number nor a truth value that was asked for. -/
theorem comesFrom_text {kind? : Option Kind} {s : String}
    (hnumber : kind? = some .number → finiteNumber? s = none)
    (hboolean : kind? = some .boolean → truthValue? s = none) :
    ComesFrom kind? (some s) (.text s) := by
  refine ⟨by simp, by simp, fun x => iff_of_false (by simp) ?_, fun b => iff_of_false (by simp) ?_⟩
  · rintro ⟨hkind, hfinite, s', hs, hread⟩
    obtain rfl := Option.some.inj hs
    have hsome := finiteNumber?_eq_some_iff.mpr ⟨hfinite, hread⟩
    rw [hnumber hkind] at hsome
    cases hsome
  · rintro ⟨hkind, s', hs, hspells⟩
    obtain rfl := Option.some.inj hs
    have hsome := truthValue?_eq_some_iff.mpr hspells
    rw [hboolean hkind] at hsome
    cases hsome

theorem comesFrom_number {s : String} {x : Binary64} (h : finiteNumber? s = some x) :
    ComesFrom (some .number) (some s) (.number x) := by
  obtain ⟨hfinite, hread⟩ := finiteNumber?_eq_some_iff.mp h
  refine ⟨by simp, by simp, fun x' => ⟨?_, ?_⟩, by simp⟩
  · intro heq
    obtain rfl := Value.number.inj heq
    exact ⟨rfl, hfinite, s, rfl, hread⟩
  · rintro ⟨-, -, s', hs, hread'⟩
    obtain rfl := Option.some.inj hs
    exact congrArg Value.number (Option.some.inj (hread.symm.trans hread'))

theorem comesFrom_boolean {s : String} {b : Bool} (h : truthValue? s = some b) :
    ComesFrom (some .boolean) (some s) (.boolean b) := by
  refine ⟨by simp, by simp, by simp, fun b' => ⟨?_, ?_⟩⟩
  · intro heq
    obtain rfl := Value.boolean.inj heq
    exact ⟨rfl, s, rfl, truthValue?_eq_some_iff.mp h⟩
  · rintro ⟨-, s', hs, hspells⟩
    obtain rfl := Option.some.inj hs
    exact congrArg Value.boolean
      (Option.some.inj (h.symm.trans (truthValue?_eq_some_iff.mpr hspells)))

/-- Coercion falls back on the text, whatever was asked for. -/
theorem comesFrom_coerce (kind : Kind) (raw : String) :
    ComesFrom (some kind) (some raw) (coerce raw kind) := by
  cases kind with
  | text => exact comesFrom_text (by simp) (by simp)
  | number =>
    unfold coerce
    cases hnumber : finiteNumber? raw with
    | none => exact comesFrom_text (fun _ => hnumber) (by simp)
    | some x => exact comesFrom_number hnumber
  | boolean =>
    unfold coerce
    cases hboolean : truthValue? raw with
    | none => exact comesFrom_text (by simp) fun _ => hboolean
    | some b => exact comesFrom_boolean hboolean

theorem comesFrom_cell (kind : Kind) (raw : Option String) :
    ComesFrom (some kind) raw (cell kind raw) := by
  cases raw with
  | none => exact comesFrom_null _
  | some s => exact comesFrom_coerce kind s

theorem comesFrom_ofRaw (raw : Option String) : ComesFrom none raw (Value.ofRaw raw) := by
  cases raw with
  | none => exact comesFrom_null _
  | some s => exact comesFrom_text (by simp) (by simp)

/-- **No text turns into null**, not even as JSON. -/
theorem ComesFrom.valueText_eq_null_iff {kind? : Option Kind} {raw : Option String} {value : Value}
    (h : ComesFrom kind? raw value) : Json.valueText value = ['n', 'u', 'l', 'l'] ↔ raw = none := by
  rw [← h.null]
  cases value with
  | text s => simp [Json.valueText, Json.stringText]
  | number x =>
    obtain ⟨-, ⟨y, rfl⟩, -⟩ := (h.number x).mp rfl
    obtain ⟨d, hnumber, -⟩ := Json.exists_number y
    obtain ⟨c, rest, htext, hc⟩ := hnumber.exists_cons
    refine iff_of_false ?_ (by simp)
    rw [Json.valueText, htext]
    rintro heq
    obtain ⟨rfl, -⟩ := List.cons.inj heq
    exact absurd hc (by decide)
  | boolean b => cases b <;> simp [Json.valueText]
  | null => simp [Json.valueText]

/-! ## Records -/

/-- A column of the input under the name and the kind that it has in the output. -/
inductive Selects : Option SpecSet → String → String → Option Kind → Prop
  | all (name : String) : Selects none name name none
  | spec {specs : SpecSet} {key : String} {spec : Spec} (h : specs.get? key = some spec) :
    Selects (some specs) key spec.target (some spec.kind)

/-- **Where values come from**: each value of an output record comes from one field of the raw
record, is null in JSON only where the field has no text, and is a truth value only where the text is
a word for it, in the lower case of ASCII as in that of Unicode. -/
theorem exists_comesFrom {specs? : Option SpecSet} {record : RawRecord} {name : String}
    {value : Value} (h : (name, value) ∈ (apply specs? record).fields) :
    ∃ key raw kind?, (key, raw) ∈ record.fields ∧ Selects specs? key name kind? ∧
      ComesFrom kind? raw value ∧
      (Json.valueText value = ['n', 'u', 'l', 'l'] ↔ raw = none) ∧
      ∀ s t b, raw = some s → Text.LowerCase s.toList t →
        (SpellsTruth s b ↔ String.ofList t ∈ truthWords b) := by
  have hcome : ∃ key raw kind?, (key, raw) ∈ record.fields ∧ Selects specs? key name kind? ∧
      ComesFrom kind? raw value := by
    cases specs? with
    | none =>
      obtain ⟨⟨key, raw⟩, hfield, heq⟩ := List.mem_map.mp h
      obtain ⟨rfl, rfl⟩ := Prod.mk.inj heq
      exact ⟨key, raw, none, hfield, .all key, comesFrom_ofRaw raw⟩
    | some specs =>
      rw [apply, ← Record.get?_eq_some_iff, get?_project_eq_some_iff] at h
      obtain ⟨before, ⟨key, raw⟩, after, spec, hfields, hspec, rfl, -, rfl⟩ := h
      have hfield : (key, raw) ∈ selectedFields specs record.fields := by
        rw [hfields]
        exact List.mem_append_right _ List.mem_cons_self
      exact ⟨key, raw, some spec.kind, List.mem_of_mem_filter hfield, .spec hspec,
        comesFrom_cell spec.kind raw⟩
  obtain ⟨key, raw, kind?, hfield, hselects, hvalue⟩ := hcome
  exact ⟨key, raw, kind?, hfield, hselects, hvalue, hvalue.valueText_eq_null_iff,
    fun _ _ _ _ hlower => spellsTruth_iff_of_lowerCase hlower⟩

/-- A column of truth values under another name, and one of numbers. -/
def flagSpecs : SpecSet := .ofList [("ok", ⟨"ok", "flag", .boolean⟩), ("n", ⟨"n", "n", .number⟩)]

def flagRow : RawRecord := .ofList [("n", some "1e400"), ("ok", some "TRUE"), ("x", none)]

theorem exists_comesFrom_of_flag :
    ("flag", Value.boolean true) ∈ (apply (some flagSpecs) flagRow).fields ∧
      ∃ key raw kind?, (key, raw) ∈ flagRow.fields ∧
        Selects (some flagSpecs) key "flag" kind? ∧ ComesFrom kind? raw (.boolean true) ∧
        ∀ s, raw = some s → ∃ t, Text.LowerCase s.toList t ∧
          (SpellsTruth s true ↔ String.ofList t ∈ truthWords true) := by
  have h : ("flag", Value.boolean true) ∈ (apply (some flagSpecs) flagRow).fields :=
    Record.get?_eq_some_iff.mp rfl
  obtain ⟨key, raw, kind?, hfield, hselects, hvalue, -, hlower⟩ := exists_comesFrom h
  refine ⟨h, key, raw, kind?, hfield, hselects, hvalue, fun s hraw => ?_⟩
  exact ⟨_, Text.lowerCase_flatMap s.toList, hlower s _ true hraw (Text.lowerCase_flatMap _)⟩

end Rowcast.Column
