import Mathlib
import Rowcast.Json.Text
import Rowcast.Proofs.Json.NumberText
import Rowcast.Proofs.Json.Reading

/-!
# Written records are read back

The text of records belongs to the grammar of JSON, and a reader gets an array with one object for
each record, names and values in their order (`bare_recordsChars`).  Texts and truth values come
back as they are; a number comes back as a decimal that rounds to it.  So the text says all there is
to say about finite records, the sign of a zero apart (`read?_recordsText`).

The two layouts differ only in the space between the tokens, so one proof serves both: it asks of a
layout no more than that (`Layout.Blank`).
-/

namespace Rowcast

open Binary64

namespace Value

/-- Whether JSON can hold a cell: its number, if it is one, is finite. -/
def isFinite : Value → Bool
  | .number (.finite _) => true
  | .number _ => false
  | _ => true

/-- The same cell, a negative zero apart: its sign is dropped. -/
def unsignZero : Value → Value
  | .number (.finite x) => .number (.finite x.unsignZero)
  | value => value

end Value

namespace Json

/-! ## What a reader gets -/

/-- A document stands for a cell.  For a number it is a decimal to which no other number is nearer
and which rounds to the number; for one that is not finite it is null. -/
inductive Stands : Document → Value → Prop
  | null : Stands .null .null
  | boolean (b : Bool) : Stands (.boolean b) (.boolean b)
  | text (s : String) : Stands (.text s) (.text s)
  | number {d : Decimal} {x : Finite} (hnearest : IsNearest d.value x)
      (hrounds : d.toBinary64 = .finite x.unsignZero) : Stands (.number d) (.number (.finite x))
  | infinite {x : Binary64} (h : ∀ y, x ≠ .finite y) : Stands .null (.number x)

def StandsField (member : String × Document) (field : String × Value) : Prop :=
  member.1 = field.1 ∧ Stands member.2 field.2

/-- An object stands for a record: its members stand for the fields, in their order. -/
def StandsRecord (d : Document) (record : OutputRecord) : Prop :=
  ∃ members, d = .object members ∧ List.Forall₂ StandsField members record.fields

theorem unsignZero_eq_of_stands {d : Document} {v w : Value} (hv : Stands d v)
    (hw : Stands d w) (hfv : v.isFinite = true) (hfw : w.isFinite = true) :
    v.unsignZero = w.unsignZero := by
  have hfinite : ∀ {x : Binary64}, (∀ y, x ≠ .finite y) →
      Value.isFinite (.number x) ≠ true := by
    intro x hx
    cases x with
    | finite y => exact absurd rfl (hx y)
    | infinite negative => exact Bool.false_ne_true
    | notANumber => exact Bool.false_ne_true
  cases hv with
  | null =>
    cases hw with
    | null => rfl
    | infinite h => exact absurd hfw (hfinite h)
  | boolean b =>
    cases hw
    rfl
  | text s =>
    cases hw
    rfl
  | number _ hrounds =>
    cases hw with
    | number _ hrounds' =>
      simp only [Value.unsignZero, Value.number.injEq]
      exact hrounds.symm.trans hrounds'
  | infinite h => exact absurd hfv (hfinite h)

/-! ## Strings -/

theorem codeUnit?_control {n : Nat} (h : n < 0x20) :
    codeUnit? '0' '0' (hexDigit (n / 16)) (hexDigit (n % 16)) = some n := by
  interval_cases n <;> decide

theorem character_escape (c : Char) : Character (escape c) c := by
  unfold escape
  split_ifs with hquote hbackslash hb hf hn hr ht hcontrol
  · rw [hquote]
    exact .short (by decide)
  · rw [hbackslash]
    exact .short (by decide)
  · rw [hb]
    exact .short (by decide)
  · rw [hf]
    exact .short (by decide)
  · rw [hn]
    exact .short (by decide)
  · rw [hr]
    exact .short (by decide)
  · rw [ht]
    exact .short (by decide)
  · exact .unit (codeUnit?_control hcontrol)
  · exact .plain (Nat.not_lt.mp hcontrol) hquote hbackslash

theorem characters_escape (cs : List Char) : Characters (cs.flatMap escape) cs := by
  induction cs with
  | nil => exact .nil
  | cons c cs ih => exact .cons (character_escape c) ih

theorem quoted_stringText (s : String) : Quoted (stringText s) s := by
  have h : Quoted ('"' :: (s.toList.flatMap escape ++ ['"'])) (String.ofList s.toList) :=
    .mk (characters_escape s.toList)
  rwa [String.ofList_toList] at h

/-! ## Cells -/

/-- The document that the text of a cell spells. -/
def document : Value → Document
  | .text s => .text s
  | .number x => (read? (numberText x)).getD .null
  | .boolean b => .boolean b
  | .null => .null

theorem element_of_bare {t : List Char} {d : Document} (h : Bare t d) : Element t d := by
  simpa using Element.mk space_nil h space_nil

theorem document_of_number {x : Binary64} {d : Document} (h : Bare (numberText x) d) :
    document (.number x) = d := by
  rw [document, read?_eq_some_iff.mpr (element_of_bare h), Option.getD_some]

/-- The text of a cell spells a document that stands for it. -/
theorem bare_valueText (v : Value) :
    Bare (valueText v) (document v) ∧ Stands (document v) v := by
  cases v with
  | text s => exact ⟨.text (quoted_stringText s), .text s⟩
  | null => exact ⟨.null, .null⟩
  | boolean b =>
    cases b with
    | true => exact ⟨.yes, .boolean true⟩
    | false => exact ⟨.no, .boolean false⟩
  | number x =>
    cases x with
    | finite x =>
      obtain ⟨d, hnumber, hnearest, hrounds⟩ := exists_number x
      have hvalue : Bare (numberText (.finite x)) (.number d) := .number hnumber
      rw [document_of_number hvalue]
      exact ⟨hvalue, .number hnearest hrounds⟩
    | infinite negative =>
      have hvalue : Bare (numberText (.infinite negative)) .null := .null
      rw [document_of_number hvalue]
      exact ⟨hvalue, .infinite (by simp)⟩
    | notANumber =>
      have hvalue : Bare (numberText .notANumber) .null := .null
      rw [document_of_number hvalue]
      exact ⟨hvalue, .infinite (by simp)⟩

/-! ## Layouts -/

/-- A layout that puts nothing but space between the tokens. -/
structure Layout.Blank (layout : Layout) : Prop where
  space : ∀ depth, Space (layout.space depth)
  afterColon : Space layout.afterColon

theorem blank_compact : compact.Blank where
  space _ := space_nil
  afterColon := space_nil

theorem blank_pretty : pretty.Blank where
  space depth := by
    intro c hc
    rcases List.mem_cons.mp hc with rfl | hc
    · rfl
    · rw [List.eq_of_mem_replicate hc]
      rfl
  afterColon := by
    intro c hc
    rw [List.mem_singleton.mp hc]
    rfl

/-- A part of the grammar that may have space around it. -/
def Padded {α : Type} (P : List Char → α → Prop) : Prop :=
  ∀ {before t after a}, Space before → P t a → Space after → P (before ++ (t ++ after)) a

theorem padded_element : Padded Element := by
  intro before t after d hbefore h hafter
  cases h with
  | mk hbefore' h hafter' =>
    simpa using Element.mk (space_append hbefore hbefore') h (space_append hafter' hafter)

theorem padded_member : Padded Member := by
  intro before t after member hbefore h hafter
  cases h with
  | mk hbefore' hname hafter' h =>
    simpa using
      Member.mk (space_append hbefore hbefore') hname hafter' (padded_element space_nil h hafter)

section Brackets

variable {α : Type} {P : List Char → α → Prop} {layout : Layout}

/-- Parts with commas and space between them. -/
theorem separated_parts (hpad : Padded P) {before after : List Char} (hbefore : Space before)
    (hafter : Space after) {t : List Char} {a : α} (h : P t a) {texts : List (List Char)}
    {items : List α} (hrest : List.Forall₂ P texts items) :
    Separated P (before ++ (t ++ (texts.flatMap (fun u => ',' :: before ++ u) ++ after)))
      (a :: items) := by
  induction hrest generalizing t a with
  | nil => exact .one (hpad hbefore h hafter)
  | @cons u b texts items h' hrest ih =>
    simpa using Separated.more (hpad hbefore h space_nil) (ih h')

/-- What is written between brackets stands between brackets. -/
theorem bracketed_written (hlayout : layout.Blank) (hpad : Padded P) (depth : Nat)
    {opening closing : Char} {texts : List (List Char)} {items : List α}
    (h : List.Forall₂ P texts items) :
    Bracketed P opening closing (bracketed layout depth opening closing texts) items := by
  cases h with
  | nil => exact .empty space_nil
  | @cons t a texts items h hrest =>
    have hparts := separated_parts hpad (hlayout.space (depth + 1)) (hlayout.space depth) h hrest
    have hbrackets : Bracketed P opening closing _ _ := .parts hparts
    simpa [bracketed] using hbrackets

end Brackets

/-! ## Records -/

variable {layout : Layout}

def recordDocument (record : OutputRecord) : Document :=
  .object (record.fields.map fun field => (field.1, document field.2))

theorem member_memberText (hlayout : layout.Blank) (field : String × Value) :
    Member (memberText layout field) (field.1, document field.2) := by
  have hvalue : Element (layout.afterColon ++ (valueText field.2 ++ [])) (document field.2) :=
    .mk hlayout.afterColon (bare_valueText field.2).1 space_nil
  simpa [memberText] using Member.mk space_nil (quoted_stringText field.1) space_nil hvalue

theorem bare_recordChars (hlayout : layout.Blank) (depth : Nat) (record : OutputRecord) :
    Bare (recordChars layout depth record) (recordDocument record) := by
  apply Bare.object
  apply bracketed_written hlayout padded_member
  rw [List.forall₂_map_left_iff, List.forall₂_map_right_iff]
  exact List.forall₂_same.mpr fun field _ => member_memberText hlayout field

/-- **The text of records spells an array of objects**, in any layout. -/
theorem bare_recordsChars (hlayout : layout.Blank) (records : List OutputRecord) :
    Bare (recordsChars layout records) (.array (records.map recordDocument)) := by
  apply Bare.array
  apply bracketed_written hlayout padded_element
  rw [List.forall₂_map_left_iff, List.forall₂_map_right_iff]
  exact List.forall₂_same.mpr fun record _ => element_of_bare (bare_recordChars hlayout 1 record)

theorem standsRecord_recordDocument (record : OutputRecord) :
    StandsRecord (recordDocument record) record := by
  refine ⟨_, rfl, ?_⟩
  rw [List.forall₂_map_left_iff]
  exact List.forall₂_same.mpr fun field _ => ⟨rfl, (bare_valueText field.2).2⟩

/-! ## Faithfulness -/

/-- Records without a number that JSON cannot hold. -/
def AllFinite (records : List OutputRecord) : Prop :=
  ∀ record ∈ records, ∀ field ∈ record.fields, field.2.isFinite = true

theorem map_eq_map_of {α β γ : Type} {f : α → β} {g : α → γ} {l l' : List α}
    (h : l.map f = l'.map f) (hfg : ∀ a ∈ l, ∀ b ∈ l', f a = f b → g a = g b) :
    l.map g = l'.map g := by
  induction l generalizing l' with
  | nil =>
    cases l' with
    | nil => rfl
    | cons b l' => contradiction
  | cons a l ih =>
    cases l' with
    | nil => contradiction
    | cons b l' =>
      simp only [List.map_cons, List.cons.injEq] at h ⊢
      refine ⟨hfg a List.mem_cons_self b List.mem_cons_self h.1, ih h.2 ?_⟩
      intro a' ha b' hb
      exact hfg a' (List.mem_cons_of_mem _ ha) b' (List.mem_cons_of_mem _ hb)

theorem unsignZero_eq_of_document {v w : Value} (h : document v = document w)
    (hv : v.isFinite = true) (hw : w.isFinite = true) : v.unsignZero = w.unsignZero := by
  have hstands : Stands (document v) w := h ▸ (bare_valueText w).2
  exact unsignZero_eq_of_stands (bare_valueText v).2 hstands hv hw

theorem unsignZero_eq_of_recordDocument {records others : List OutputRecord}
    (hrecords : AllFinite records) (hothers : AllFinite others)
    (h : others.map recordDocument = records.map recordDocument) :
    others.map (Record.map Value.unsignZero) = records.map (Record.map Value.unsignZero) := by
  apply map_eq_map_of h
  intro a ha b hb hab
  apply Record.ext
  apply map_eq_map_of (Document.object.inj hab)
  intro field hfield field' hfield' heq
  obtain ⟨hname, hdocument⟩ := Prod.mk.inj heq
  rw [Prod.mk.injEq]
  exact ⟨hname, unsignZero_eq_of_document hdocument (hothers a ha field hfield)
    (hrecords b hb field' hfield')⟩

/-- **The compact text of finite records is faithful.**  It belongs to the grammar, and a reader
gets an array of objects from it and nothing else; these stand for the records, in their order.
Finite records with the same text are the same, the sign of a zero apart. -/
theorem read?_recordsText (records : List OutputRecord) (hfinite : AllFinite records) :
    ∃ items,
      Element (recordsText compact records).toList (.array items) ∧
      (∀ d, read? (recordsText compact records).toList = some d ↔ d = .array items) ∧
      List.Forall₂ StandsRecord items records ∧
      ∀ others, AllFinite others → recordsText compact others = recordsText compact records →
        others.map (Record.map Value.unsignZero) = records.map (Record.map Value.unsignZero) := by
  have hspells : ∀ records, Element (recordsText compact records).toList
      (.array (records.map recordDocument)) := by
    intro records
    rw [recordsText, String.toList_ofList]
    exact element_of_bare (bare_recordsChars blank_compact records)
  refine ⟨records.map recordDocument, hspells records, ?_, ?_, ?_⟩
  · intro d
    rw [read?_eq_some_iff]
    constructor
    · intro h
      exact h.unique (hspells records)
    · rintro rfl
      exact hspells records
  · rw [List.forall₂_map_left_iff]
    exact List.forall₂_same.mpr fun record _ => standsRecord_recordDocument record
  · intro others hothers htext
    have hsame := hspells others
    rw [htext] at hsame
    exact unsignZero_eq_of_recordDocument hfinite hothers
      (Document.array.inj (hsame.unique (hspells records)))

/-- Escapes, an integer, decimals with and without an exponent, and a record without fields. -/
def sampleRecords : List OutputRecord :=
  [.ofList [("say \"hi\"", .text "a\\b\n\x01é"), ("gone", .null), ("kept", .boolean true)],
    .empty,
    .ofList [("whole", .number (.finite ⟨false, 7881299347898368, -50, by decide⟩)),
      ("tenth", .number (.finite ⟨true, 7205759403792794, -56, by decide⟩)),
      ("tiny", .number (.finite ⟨false, 4722366482869645, -74, by decide⟩)),
      ("zero", .number (.finite (.zero true)))]]

theorem read?_recordsText_of_three_records :
    AllFinite sampleRecords ∧
      recordsText compact sampleRecords =
        "[\x7b\"say \\\"hi\\\"\":\"a\\\\b\\n\\u0001é\",\"gone\":null,\"kept\":true\x7d,\x7b\x7d," ++
          "\x7b\"whole\":7,\"tenth\":-0.1,\"tiny\":2.5e-7,\"zero\":0\x7d]" ∧
      ∃ items, read? (recordsText compact sampleRecords).toList = some (.array items) ∧
        List.Forall₂ StandsRecord items sampleRecords := by
  have hfinite : AllFinite sampleRecords := by
    unfold AllFinite
    decide
  obtain ⟨items, -, hread, hstands, -⟩ := read?_recordsText sampleRecords hfinite
  exact ⟨hfinite, by decide +kernel, items, (hread _).mpr rfl, hstands⟩

end Json

end Rowcast
