import Mathlib
import Rowcast.Conversion
import Rowcast.Proofs.Json.Writing

/-!
# The two layouts

`squeeze` deletes the spaces and the line feeds of a JSON text that stand outside of its strings.
It takes the pretty text of records to the compact one, and both spell the same document
(`squeeze_fileText`).

`squeeze` has to know where it stands, so a statement about a piece of text holds for a piece that
begins outside of strings and ends there: `Squeezes t u` says that `t` is such a piece, and that `u`
remains of it.  These pieces can be joined, so the proof follows the printer.
-/

namespace Rowcast.Json

/-! ## Deleting space -/

/-- Where a character of a JSON text stands: outside of strings, inside of one, or behind a
backslash in one. -/
inductive Position where
  | outside
  | inside
  | escaped
  deriving DecidableEq

def Position.next : Position → Char → Position
  | .outside, c => if c = '"' then .inside else .outside
  | .inside, c => if c = '\\' then .escaped else if c = '"' then .outside else .inside
  | .escaped, _ => .inside

def squeezeFrom : Position → List Char → List Char
  | _, [] => []
  | position, c :: s =>
    if position = .outside ∧ (c = ' ' ∨ c = '\n') then squeezeFrom position s
    else c :: squeezeFrom (position.next c) s

/-- Deletes the spaces and the line feeds that stand outside of strings. -/
def squeeze (s : List Char) : List Char := squeezeFrom .outside s

/-- Outside of strings `u` remains of `t`, and what follows `t` stands outside of strings too. -/
def Squeezes (t u : List Char) : Prop := ∀ rest, squeeze (t ++ rest) = u ++ squeeze rest

theorem squeeze_of_squeezes {t u : List Char} (h : Squeezes t u) : squeeze t = u := by
  have hnil := h []
  rw [List.append_nil] at hnil
  rw [hnil]
  exact List.append_nil u

theorem squeezes_append {t t' u u' : List Char} (h : Squeezes t u) (h' : Squeezes t' u') :
    Squeezes (t ++ t') (u ++ u') := by
  intro rest
  rw [List.append_assoc, h, h', List.append_assoc]

/-- Nothing that `squeeze` looks for. -/
def Plain (s : List Char) : Prop := ∀ c ∈ s, c ≠ '"' ∧ c ≠ ' ' ∧ c ≠ '\n'

instance (s : List Char) : Decidable (Plain s) := List.decidableBAll _ s

theorem squeezes_plain {s : List Char} (h : Plain s) : Squeezes s s := by
  intro rest
  induction s with
  | nil => rfl
  | cons c s ih =>
    obtain ⟨hquote, hspace, hline⟩ := h c List.mem_cons_self
    have hkept : ¬ (Position.outside = .outside ∧ (c = ' ' ∨ c = '\n')) := by tauto
    have hs := ih fun a ha => h a (List.mem_cons_of_mem _ ha)
    rw [List.cons_append, squeeze, squeezeFrom, if_neg hkept, Position.next, if_neg hquote]
    exact congrArg (c :: ·) hs

theorem squeezes_blank {s : List Char} (h : ∀ c ∈ s, c = ' ' ∨ c = '\n') : Squeezes s [] := by
  intro rest
  induction s with
  | nil => rfl
  | cons c s ih =>
    rw [List.cons_append, squeeze, squeezeFrom, if_pos ⟨rfl, h c List.mem_cons_self⟩]
    exact ih fun a ha => h a (List.mem_cons_of_mem _ ha)

/-! ## Strings -/

theorem squeezeFrom_backslash (c : Char) (s : List Char) :
    squeezeFrom .inside ('\\' :: c :: s) = '\\' :: c :: squeezeFrom .inside s := by
  simp [squeezeFrom, Position.next]

theorem squeezeFrom_inside {c : Char} (hquote : c ≠ '"') (hbackslash : c ≠ '\\') (s : List Char) :
    squeezeFrom .inside (c :: s) = c :: squeezeFrom .inside s := by
  simp [squeezeFrom, Position.next, hquote, hbackslash]

theorem hexDigit_ne {n : Nat} (h : n < 16) : hexDigit n ≠ '"' ∧ hexDigit n ≠ '\\' := by
  interval_cases n <;> decide

/-- An escaped character leaves the string open. -/
theorem squeezeFrom_escape (c : Char) (s : List Char) :
    squeezeFrom .inside (escape c ++ s) = escape c ++ squeezeFrom .inside s := by
  unfold escape
  split_ifs with hquote hbackslash hb hf hn hr ht hcontrol
  -- First the escapes in two characters.
  any_goals exact squeezeFrom_backslash _ s
  · obtain ⟨hquote₁, hbackslash₁⟩ := hexDigit_ne (n := c.toNat / 16) (by omega)
    obtain ⟨hquote₂, hbackslash₂⟩ := hexDigit_ne (n := c.toNat % 16) (by omega)
    simp only [List.cons_append, List.nil_append, squeezeFrom_backslash]
    rw [squeezeFrom_inside (by decide) (by decide), squeezeFrom_inside (by decide) (by decide),
      squeezeFrom_inside hquote₁ hbackslash₁, squeezeFrom_inside hquote₂ hbackslash₂]
  · exact squeezeFrom_inside hquote hbackslash s

theorem squeezeFrom_escapes (cs rest : List Char) :
    squeezeFrom .inside (cs.flatMap escape ++ '"' :: rest) =
      cs.flatMap escape ++ '"' :: squeeze rest := by
  induction cs with
  | nil => simp [squeezeFrom, Position.next, squeeze]
  | cons c cs ih => rw [List.flatMap_cons, List.append_assoc, squeezeFrom_escape, ih, List.append_assoc]

theorem squeezes_stringText (s : String) : Squeezes (stringText s) (stringText s) := by
  intro rest
  have hopened : ∀ t, squeeze ('"' :: t) = '"' :: squeezeFrom .inside t := fun t => by
    simp [squeeze, squeezeFrom, Position.next]
  simp only [stringText, List.cons_append, List.append_assoc, List.nil_append, hopened,
    squeezeFrom_escapes]

/-! ## Numbers and words -/

theorem plain_append {s t : List Char} (hs : Plain s) (ht : Plain t) : Plain (s ++ t) :=
  List.forall_mem_append.mpr ⟨hs, ht⟩

theorem plain_cons {c : Char} {s : List Char} (hc : c ≠ '"' ∧ c ≠ ' ' ∧ c ≠ '\n') (hs : Plain s) :
    Plain (c :: s) :=
  List.forall_mem_cons.mpr ⟨hc, hs⟩

theorem plain_nil : Plain [] := List.forall_mem_nil _

theorem plain_of_digit {c : Char} (h : c.isDigit = true) : c ≠ '"' ∧ c ≠ ' ' ∧ c ≠ '\n' := by
  refine ⟨?_, ?_, ?_⟩
  all_goals
    rintro rfl
    contradiction

theorem plain_of_digits {s : List Char} (h : AllDigits s) : Plain s :=
  fun c hc => plain_of_digit (h c hc)

theorem plain_of_unsigned {t : List Char} {n : Nat} {e : Int} (h : Unsigned t n e) : Plain t := by
  cases h with
  | mk hwhole hfraction hexponent =>
    refine plain_append ?_ (plain_append ?_ ?_)
    · cases hwhole with
      | zero => exact plain_cons (by decide) plain_nil
      | digits hfirst _ hrest => exact plain_cons (plain_of_digit hfirst) (plain_of_digits hrest)
    · cases hfraction with
      | absent => exact plain_nil
      | present _ hdigits => exact plain_cons (by decide) (plain_of_digits hdigits)
    · have hmarked : ∀ {mark : Char} {s : List Char}, mark = 'e' ∨ mark = 'E' → Plain s →
          Plain (mark :: s) := by
        intro mark s hmark hs
        rcases hmark with rfl | rfl
        · exact plain_cons (by decide) hs
        · exact plain_cons (by decide) hs
      cases hexponent with
      | absent => exact plain_nil
      | unsigned hmark _ hdigits => exact hmarked hmark (plain_of_digits hdigits)
      | plus hmark _ hdigits =>
        exact hmarked hmark (plain_cons (by decide) (plain_of_digits hdigits))
      | minus hmark _ hdigits =>
        exact hmarked hmark (plain_cons (by decide) (plain_of_digits hdigits))

theorem plain_of_number {t : List Char} {d : Decimal} (h : Number t d) : Plain t := by
  cases h with
  | positive h => exact plain_of_unsigned h
  | negative h => exact plain_cons (by decide) (plain_of_unsigned h)

theorem plain_numberText (x : Binary64) : Plain (numberText x) := by
  have hnull : Plain ['n', 'u', 'l', 'l'] := by decide
  cases x with
  | finite x =>
    obtain ⟨d, hnumber, -⟩ := exists_number x
    exact plain_of_number hnumber
  | infinite negative => exact hnull
  | notANumber => exact hnull

theorem squeezes_valueText (v : Value) : Squeezes (valueText v) (valueText v) := by
  cases v with
  | text s => exact squeezes_stringText s
  | number x => exact squeezes_plain (plain_numberText x)
  | boolean b =>
    apply squeezes_plain
    cases b <;> decide
  | null => exact squeezes_plain (by decide)

/-! ## Records -/

theorem squeezes_space (depth : Nat) : Squeezes (pretty.space depth) [] := by
  apply squeezes_blank
  intro c hc
  rcases List.mem_cons.mp hc with rfl | hc
  · exact .inr rfl
  · exact .inl (List.eq_of_mem_replicate hc)

/-- What stands between brackets stands there in both layouts. -/
theorem squeezes_bracketed (depth : Nat) {opening closing : Char} (hopening : Plain [opening])
    (hclosing : Plain [closing]) {texts texts' : List (List Char)}
    (h : List.Forall₂ Squeezes texts texts') :
    Squeezes (bracketed pretty depth opening closing texts)
      (bracketed compact depth opening closing texts') := by
  cases h with
  | nil => exact squeezes_append (squeezes_plain hopening) (squeezes_plain hclosing)
  | @cons t t' texts texts' h hrest =>
    have hparts : Squeezes (texts.flatMap fun t => ',' :: pretty.space (depth + 1) ++ t)
        (texts'.flatMap fun t => ',' :: compact.space (depth + 1) ++ t) := by
      induction hrest with
      | nil => exact squeezes_plain plain_nil
      | cons h _ ih =>
        have hcomma : Squeezes [','] [','] := squeezes_plain (by decide)
        exact squeezes_append
          (squeezes_append (squeezes_append hcomma (squeezes_space (depth + 1))) h) ih
    have hfirst := squeezes_append
      (squeezes_append (squeezes_plain hopening) (squeezes_space (depth + 1))) h
    have hlast := squeezes_append (squeezes_space depth) (squeezes_plain hclosing)
    simpa [bracketed, compact] using squeezes_append (squeezes_append hfirst hparts) hlast

theorem squeezes_memberText (field : String × Value) :
    Squeezes (memberText pretty field) (memberText compact field) := by
  have hcolon : Squeezes [':'] [':'] := squeezes_plain (by decide)
  have hspace : Squeezes pretty.afterColon compact.afterColon := by
    apply squeezes_blank
    intro c hc
    exact .inl (List.mem_singleton.mp hc)
  simpa [memberText] using squeezes_append (squeezes_stringText field.1)
    (squeezes_append (squeezes_append hcolon hspace) (squeezes_valueText field.2))

theorem squeezes_recordChars (depth : Nat) (record : OutputRecord) :
    Squeezes (recordChars pretty depth record) (recordChars compact depth record) := by
  apply squeezes_bracketed depth (by decide) (by decide)
  rw [List.forall₂_map_left_iff, List.forall₂_map_right_iff]
  exact List.forall₂_same.mpr fun field _ => squeezes_memberText field

theorem squeezes_recordsChars (records : List OutputRecord) :
    Squeezes (recordsChars pretty records) (recordsChars compact records) := by
  apply squeezes_bracketed 0 (by decide) (by decide)
  rw [List.forall₂_map_left_iff, List.forall₂_map_right_iff]
  exact List.forall₂_same.mpr fun record _ => squeezes_recordChars 1 record

/-- **The two layouts agree.**  Without the spaces and line feeds outside of its strings the pretty
text is the compact one, and a reader gets the same document from both. -/
theorem squeeze_fileText (settings : Settings) (records : List OutputRecord) :
    let prettyText := (Conversion.fileText { settings with pretty := true } records).toList
    let compactText := (Conversion.fileText { settings with pretty := false } records).toList
    squeeze prettyText = compactText ∧
      ∃ d, read? prettyText = some d ∧ read? compactText = some d := by
  intro prettyText compactText
  have hpretty : prettyText = recordsChars pretty records := String.toList_ofList
  have hcompact : compactText = recordsChars compact records := String.toList_ofList
  rw [hpretty, hcompact]
  refine ⟨squeeze_of_squeezes (squeezes_recordsChars records), ?_⟩
  refine ⟨.array (records.map recordDocument), ?_, ?_⟩
  · exact read?_eq_some_iff.mpr (element_of_bare (bare_recordsChars blank_pretty records))
  · exact read?_eq_some_iff.mpr (element_of_bare (bare_recordsChars blank_compact records))

example : squeeze ['[', ' ', '"', ' ', '\\', '"', '\n', '"', '\n', ']'] =
    ['[', '"', ' ', '\\', '"', '\n', '"', ']'] := by decide

end Rowcast.Json
