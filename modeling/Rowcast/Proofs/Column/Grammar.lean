import Mathlib
import Rowcast.Column.Definition
import Rowcast.Proofs.Record
import Rowcast.Proofs.Text.Blank

/-!
# The grammar of column definitions

A `Part` is a part of a definition as it may be written: a key, an alias after a colon and a kind
after an at-sign, the last two only where the writer wants them, and each of the three with any
blank space around it.  Each is a word (`IsWord`): it holds no separator, and no blank space at its
ends.  A part whose key is the empty word has no key.

Three scans take a part apart, and each gets back what was written: the key ends before the first
separator (`uptoSeparator_text`), the alias follows the first colon (`aliasOf?_text`), and the kind
follows the last at-sign (`kindToken?_text`).  Together they read a part as it was meant
(`ofPart?_text`), and the parts of a definition are found between its commas
(`splitOn_definitionText`).
-/

namespace Rowcast.Column

open Text

/-! ### Words -/

/-- A text that can be written where a definition has a key, an alias or a kind. -/
structure IsWord (s : String) : Prop where
  tidy : Tidy isBlank s.toList
  plain : ∀ c ∈ s.toList, c ≠ ',' ∧ c ≠ ':' ∧ c ≠ '@'

instance (s : String) : Decidable (IsWord s) :=
  have : Decidable (∀ c ∈ s.toList, c ≠ ',' ∧ c ≠ ':' ∧ c ≠ '@') := List.decidableBAll _ s.toList
  decidable_of_iff (Tidy isBlank s.toList ∧ ∀ c ∈ s.toList, c ≠ ',' ∧ c ≠ ':' ∧ c ≠ '@')
    ⟨fun h => ⟨h.1, h.2⟩, fun h => ⟨h.tidy, h.plain⟩⟩

theorem isWord_empty : IsWord "" where
  tidy := ⟨by simp, by simp⟩
  plain := by simp

structure Spelling where
  before : List Char
  word : String
  after : List Char
  blank_before : ∀ c ∈ before, isBlank c = true
  isWord : IsWord word
  blank_after : ∀ c ∈ after, isBlank c = true

def Spelling.ofWord (word : String) (h : IsWord word) : Spelling where
  before := []
  word := word
  after := []
  blank_before := by simp
  isWord := h
  blank_after := by simp

def Spelling.text (s : Spelling) : List Char := s.before ++ s.word.toList ++ s.after

theorem Spelling.text_ofWord {word : String} (h : IsWord word) :
    (Spelling.ofWord word h).text = word.toList := by
  simp [Spelling.text, Spelling.ofWord]

/-- **The blank space around a word is not read.** -/
theorem Spelling.piece_text (s : Spelling) : piece s.text = s.word := by
  rw [piece, text, strip_around s.blank_before s.isWord.tidy s.blank_after, String.ofList_toList]

theorem Spelling.plain (s : Spelling) : ∀ c ∈ s.text, c ≠ ',' ∧ c ≠ ':' ∧ c ≠ '@' := by
  have hblank : ∀ c, isBlank c = true → c ≠ ',' ∧ c ≠ ':' ∧ c ≠ '@' := by
    intro c hc
    refine ⟨?_, ?_, ?_⟩ <;> · rintro rfl; exact absurd hc (by decide)
  intro c hc
  simp only [text, List.mem_append] at hc
  rcases hc with (hc | hc) | hc
  · exact hblank c (s.blank_before c hc)
  · exact s.isWord.plain c hc
  · exact hblank c (s.blank_after c hc)

theorem isSeparator_eq_false_iff {c : Char} : isSeparator c = false ↔ c ≠ ':' ∧ c ≠ '@' := by
  simp [isSeparator]

/-- What the scan of a key or an alias leaves is a word. -/
theorem isWord_piece_uptoSeparator {s : List Char} (h : ',' ∉ s) :
    IsWord (piece (uptoSeparator s)) where
  tidy := by
    rw [piece, String.toList_ofList]
    exact tidy_strip isBlank _
  plain := by
    intro c hc
    rw [piece, String.toList_ofList] at hc
    have hmem : c ∈ uptoSeparator s := strip_subset isBlank _ hc
    rw [uptoSeparator] at hmem
    have hcomma : c ∈ s := (List.takeWhile_prefix _).subset hmem
    have hseparator := List.mem_takeWhile_imp hmem
    rw [Bool.not_eq_true', isSeparator_eq_false_iff] at hseparator
    exact ⟨fun heq => h (heq ▸ hcomma), hseparator⟩

/-! ### Parts -/

structure Part where
  key : Spelling
  alias? : Option Spelling
  kind? : Option Spelling

namespace Part

/-- A part without a key counts for nothing. -/
def HasKey (part : Part) : Prop := part.key.word ≠ ""

instance (part : Part) : Decidable part.HasKey := inferInstanceAs (Decidable (_ ≠ _))

/-- An empty alias is like none. -/
def target (part : Part) : String :=
  match part.alias? with
  | none => part.key.word
  | some name => if name.word = "" then part.key.word else name.word

def token? (part : Part) : Option String := part.kind?.map Spelling.word

/-- Only two words name a kind other than text. -/
def kind (part : Part) : Kind :=
  if part.token? = some "number" then .number
  else if part.token? = some "boolean" then .boolean
  else .text

def spec (part : Part) : Spec := ⟨part.key.word, part.target, part.kind⟩

def aliasText (part : Part) : List Char :=
  match part.alias? with
  | none => []
  | some name => ':' :: name.text

def kindText (part : Part) : List Char :=
  match part.kind? with
  | none => []
  | some token => '@' :: token.text

def text (part : Part) : List Char := part.key.text ++ part.aliasText ++ part.kindText

/-- What a definition means by a part: nothing where there is no key. -/
def spec? (part : Part) : Option Spec := if part.HasKey then some part.spec else none

def blank : Part := ⟨.ofWord "" isWord_empty, none, none⟩

theorem text_blank : blank.text = [] := by
  simp [blank, text, aliasText, kindText, Spelling.text_ofWord]

/-! ### The three scans -/

theorem uptoSeparator_append {s rest : List Char} (hs : ∀ c ∈ s, isSeparator c = false)
    (hrest : ∀ c ∈ rest.head?, isSeparator c = true) : uptoSeparator (s ++ rest) = s := by
  have hkept : ∀ c ∈ s, (!isSeparator c) = true := fun c hc => by rw [hs c hc]; rfl
  rw [uptoSeparator, List.takeWhile_append_of_pos hkept]
  cases rest with
  | nil => rw [List.takeWhile_nil, List.append_nil]
  | cons c rest =>
    have hc : isSeparator c = true := hrest c rfl
    rw [List.takeWhile_cons_of_neg (by simp [hc]), List.append_nil]

theorem not_isSeparator_spelling (s : Spelling) : ∀ c ∈ s.text, isSeparator c = false :=
  fun c hc => isSeparator_eq_false_iff.mpr (s.plain c hc).2

theorem head?_kindText (part : Part) : ∀ c ∈ part.kindText.head?, isSeparator c = true := by
  unfold kindText
  cases part.kind? with
  | none => simp
  | some token => simp [isSeparator]

theorem head?_aliasText (part : Part) :
    ∀ c ∈ (part.aliasText ++ part.kindText).head?, isSeparator c = true := by
  unfold aliasText
  cases part.alias? with
  | none => exact part.head?_kindText
  | some name => simp [isSeparator]

theorem uptoSeparator_text (part : Part) : uptoSeparator part.text = part.key.text := by
  rw [text, List.append_assoc]
  exact uptoSeparator_append (not_isSeparator_spelling part.key) part.head?_aliasText

theorem colon_not_mem_kindText (part : Part) : ':' ∉ part.kindText := by
  unfold kindText
  cases part.kind? with
  | none => simp
  | some token =>
    intro hmem
    rcases List.mem_cons.mp hmem with h | h
    · exact absurd h (by decide)
    · exact (token.plain _ h).2.1 rfl

theorem aliasOf?_eq_none {part : List Char} (h : ':' ∉ part) : aliasOf? part = none := by
  have hpassed : ∀ c ∈ part, (c != ':') = true := fun c hc => by
    have hne : c ≠ ':' := fun heq => h (heq ▸ hc)
    simpa using hne
  rw [aliasOf?, List.dropWhile_eq_nil_iff.mpr hpassed]

theorem aliasOf?_append {front : List Char} (h : ':' ∉ front) (rest : List Char) :
    aliasOf? (front ++ ':' :: rest) = some (uptoSeparator rest) := by
  have hpassed : ∀ c ∈ front, (c != ':') = true := fun c hc => by
    have hne : c ≠ ':' := fun heq => h (heq ▸ hc)
    simpa using hne
  rw [aliasOf?, List.dropWhile_append_of_pos hpassed, List.dropWhile_cons_of_neg (by simp)]

theorem aliasOf?_text (part : Part) : aliasOf? part.text = part.alias?.map Spelling.text := by
  have hkey : ':' ∉ part.key.text := fun h => (part.key.plain _ h).2.1 rfl
  rw [text, List.append_assoc]
  unfold aliasText
  cases part.alias? with
  | none =>
    refine aliasOf?_eq_none ?_
    rw [List.nil_append, List.mem_append, not_or]
    exact ⟨hkey, part.colon_not_mem_kindText⟩
  | some name =>
    rw [List.cons_append, aliasOf?_append hkey]
    exact congrArg some (uptoSeparator_append (not_isSeparator_spelling name) part.head?_kindText)

theorem kindToken?_append {front token : List Char} (h : '@' ∉ token) :
    kindToken? (front ++ '@' :: token) = some token := by
  have hkept : ∀ c ∈ token.reverse, (c != '@') = true := fun c hc => by
    have hne : c ≠ '@' := fun heq => h (heq ▸ List.mem_reverse.mp hc)
    simpa using hne
  have hmem : '@' ∈ front ++ '@' :: token := List.mem_append_right _ List.mem_cons_self
  rw [kindToken?, if_pos hmem, List.reverse_append, List.reverse_cons, List.append_assoc,
    List.takeWhile_append_of_pos hkept, List.singleton_append,
    List.takeWhile_cons_of_neg (by simp), List.append_nil, List.reverse_reverse]

theorem at_not_mem_front (part : Part) : '@' ∉ part.key.text ++ part.aliasText := by
  rw [List.mem_append, not_or]
  refine ⟨fun h => (part.key.plain _ h).2.2 rfl, ?_⟩
  unfold aliasText
  cases part.alias? with
  | none => simp
  | some name =>
    intro hmem
    rcases List.mem_cons.mp hmem with h | h
    · exact absurd h (by decide)
    · exact (name.plain _ h).2.2 rfl

theorem kindToken?_text (part : Part) : kindToken? part.text = part.kind?.map Spelling.text := by
  have hfront := part.at_not_mem_front
  unfold text kindText
  cases part.kind? with
  | none =>
    rw [List.append_nil, kindToken?, if_neg hfront]
    rfl
  | some token => exact kindToken?_append fun h => (token.plain _ h).2.2 rfl

/-! ### What a part means -/

theorem target_eq_ofAlias (part : Part) (kind : Kind) :
    Spec.ofAlias part.key.word (part.alias?.map Spelling.word) kind =
      ⟨part.key.word, part.target, kind⟩ := by
  unfold target
  cases part.alias? <;> rfl

theorem kind_eq_ofToken (part : Part) :
    (part.token?.map Kind.ofToken).getD .text = part.kind := by
  unfold kind
  cases part.token? with
  | none => rfl
  | some token => simp [Kind.ofToken]

/-- **A part is read as it was meant.** -/
theorem ofPart?_text (part : Part) : Spec.ofPart? part.text = part.spec? := by
  have halias : (aliasOf? part.text).map piece = part.alias?.map Spelling.word := by
    rw [aliasOf?_text, Option.map_map]
    exact Option.map_congr fun s _ => s.piece_text
  have hkind : (kindToken? part.text).map (fun token => Kind.ofToken (piece token)) =
      part.token?.map Kind.ofToken := by
    rw [kindToken?_text, token?, Option.map_map, Option.map_map]
    exact Option.map_congr fun s _ => congrArg Kind.ofToken s.piece_text
  rw [Spec.ofPart?, uptoSeparator_text, Spelling.piece_text, halias, hkind, kind_eq_ofToken,
    target_eq_ofAlias, spec?]
  by_cases h : part.key.word = ""
  · rw [if_pos h]
    exact (if_neg (not_not_intro h)).symm
  · rw [if_neg h]
    exact (if_pos h).symm

end Part

/-! ### Definitions -/

def definitionText (parts : List Part) : String :=
  String.ofList ([','].intercalate (parts.map Part.text))

theorem Part.comma_not_mem_text (part : Part) : ',' ∉ part.text := by
  have hspelling : ∀ s : Spelling, ',' ∉ s.text := fun s h => (s.plain _ h).1 rfl
  have halias : ',' ∉ part.aliasText := by
    unfold aliasText
    cases part.alias? with
    | none => simp
    | some name => simpa using hspelling name
  have hkind : ',' ∉ part.kindText := by
    unfold kindText
    cases part.kind? with
    | none => simp
    | some token => simpa using hspelling token
  simp [text, hspelling part.key, halias, hkind]

theorem splitOn_definitionText {parts : List Part} (h : parts ≠ []) :
    (definitionText parts).toList.splitOn ',' = parts.map Part.text := by
  rw [definitionText, String.toList_ofList]
  refine List.splitOn_intercalate ',' ?_ (by simpa using h)
  intro l hl
  obtain ⟨part, -, rfl⟩ := List.mem_map.mp hl
  exact part.comma_not_mem_text

/-- **The parts of a definition, each as it was meant.** -/
theorem ofDefinition?_of_parts {parts : List Part} (hne : parts ≠ [])
    (hblank : isAllBlank (definitionText parts) = false) :
    SpecSet.ofDefinition? (definitionText parts) =
      some (.ofList ((parts.filterMap Part.spec?).map fun spec => (spec.source, spec))) := by
  rw [SpecSet.ofDefinition?, hblank, if_neg Bool.false_ne_true, splitOn_definitionText hne,
    SpecSet.ofParts, List.filterMap_map]
  have hread : Spec.ofPart? ∘ Part.text = Part.spec? := by
    funext part
    rw [Function.comp_apply, Part.ofPart?_text]
  rw [hread]

end Rowcast.Column
