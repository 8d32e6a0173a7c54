import Mathlib
import Rowcast.Proofs.Column.Grammar

/-!
# Parts cut at every separator

Three scans read a part of a definition, and each looks for a separator of its own: the first of
both kinds, the first colon, the last at-sign.  On a part such as `a@x:y@number` they meet at
different places.  Here the part is cut once, from left to right, at every separator, into
`Segments`, and what the scans find is told by the segments alone (`ofPart?_of_segments`).

The key is the segment before all separators.  The alias is the segment after the first colon.  The
kind is the last segment, if an at-sign stands before it: the last at-sign of a part that goes on
with a colon has that colon in what follows it (`colon_mem_of_kindToken?`), and then no kind is
named, for the names of kinds hold no colon (`ofToken_piece_of_colon`).
-/

namespace Rowcast.Column

open Text

/-- A part cut at every separator: what stands before the first, and each separator with what
follows it up to the next. -/
structure Segments where
  first : List Char
  rest : List (Char × List Char)
  first_plain : ∀ c ∈ first, c ≠ ':' ∧ c ≠ '@'
  separator : ∀ segment ∈ rest, segment.1 = ':' ∨ segment.1 = '@'
  plain : ∀ segment ∈ rest, ∀ c ∈ segment.2, c ≠ ':' ∧ c ≠ '@'

def segmentsText (rest : List (Char × List Char)) : List Char :=
  rest.flatMap fun segment => segment.1 :: segment.2

def Segments.text (s : Segments) : List Char := s.first ++ segmentsText s.rest

theorem segmentsText_append (before after : List (Char × List Char)) :
    segmentsText (before ++ after) = segmentsText before ++ segmentsText after :=
  List.flatMap_append

/-- Any text is cut in this way. -/
theorem exists_segments (part : List Char) : ∃ s : Segments, s.text = part := by
  induction part with
  | nil => exact ⟨⟨[], [], by simp, by simp, by simp⟩, rfl⟩
  | cons c part ih =>
    obtain ⟨⟨first, rest, hfirst, hseparator, hplain⟩, rfl⟩ := ih
    by_cases hc : c = ':' ∨ c = '@'
    · refine ⟨⟨[], (c, first) :: rest, by simp, ?_, ?_⟩, rfl⟩
      · exact List.forall_mem_cons.mpr ⟨hc, hseparator⟩
      · exact List.forall_mem_cons.mpr ⟨hfirst, hplain⟩
    · rw [not_or] at hc
      exact ⟨⟨c :: first, rest, List.forall_mem_cons.mpr ⟨hc, hfirst⟩, hseparator, hplain⟩, rfl⟩

/-! ### What the scans find -/

theorem not_mem_segmentsText {x : Char} {rest : List (Char × List Char)}
    (h : ∀ segment ∈ rest, segment.1 ≠ x ∧ ∀ c ∈ segment.2, c ≠ x) : x ∉ segmentsText rest := by
  intro hmem
  obtain ⟨segment, hsegment, hx⟩ := List.mem_flatMap.mp hmem
  rcases List.mem_cons.mp hx with hx | hx
  · exact (h segment hsegment).1 hx.symm
  · exact (h segment hsegment).2 x hx rfl

namespace Segments

variable (s : Segments)

theorem head?_segmentsText {rest : List (Char × List Char)}
    (h : ∀ segment ∈ rest, segment.1 = ':' ∨ segment.1 = '@') :
    ∀ c ∈ (segmentsText rest).head?, isSeparator c = true := by
  cases rest with
  | nil => simp [segmentsText]
  | cons segment rest =>
    intro c hc
    obtain rfl : segment.1 = c := by simpa [segmentsText] using hc
    simpa [isSeparator] using h segment List.mem_cons_self

/-- The key. -/
theorem uptoSeparator_text_eq : uptoSeparator s.text = s.first :=
  Part.uptoSeparator_append (fun c hc => isSeparator_eq_false_iff.mpr (s.first_plain c hc))
    (head?_segmentsText s.separator)

theorem colon_not_mem {before : List (Char × List Char)} (hsub : before ⊆ s.rest)
    (h : ∀ segment ∈ before, segment.1 ≠ ':') : ':' ∉ s.first ++ segmentsText before := by
  rw [List.mem_append, not_or]
  refine ⟨fun hmem => (s.first_plain _ hmem).1 rfl, not_mem_segmentsText fun segment hsegment => ?_⟩
  exact ⟨h segment hsegment, fun c hc => (s.plain segment (hsub hsegment) c hc).1⟩

/-- The alias, where there is a colon. -/
theorem aliasOf?_of_colon {before after : List (Char × List Char)} {name : List Char}
    (hrest : s.rest = before ++ (':', name) :: after)
    (hbefore : ∀ segment ∈ before, segment.1 ≠ ':') : aliasOf? s.text = some name := by
  have hsub : before ⊆ s.rest := by rw [hrest]; exact List.subset_append_left _ _
  have hmem : (':', name) ∈ s.rest := by rw [hrest]; simp
  have hafter : ∀ segment ∈ after, segment.1 = ':' ∨ segment.1 = '@' := fun segment hsegment =>
    s.separator segment (by rw [hrest]; simp [hsegment])
  have htext : s.text = (s.first ++ segmentsText before) ++ ':' :: (name ++ segmentsText after) := by
    rw [text, hrest, segmentsText_append, List.append_assoc]
    rfl
  rw [htext, Part.aliasOf?_append (s.colon_not_mem hsub hbefore)]
  exact congrArg some (Part.uptoSeparator_append
    (fun c hc => isSeparator_eq_false_iff.mpr (s.plain _ hmem c hc)) (head?_segmentsText hafter))

/-- No alias, where there is no colon. -/
theorem aliasOf?_of_no_colon (h : ∀ segment ∈ s.rest, segment.1 ≠ ':') : aliasOf? s.text = none :=
  Part.aliasOf?_eq_none (s.colon_not_mem (List.Subset.refl _) h)

end Segments

/-- What follows the last at-sign goes on to the end of the part, over any colon on the way. -/
theorem colon_mem_of_kindToken? {front name token : List Char} (hname : '@' ∉ name)
    (h : kindToken? (front ++ ':' :: name) = some token) : ':' ∈ token := by
  unfold kindToken? at h
  split at h
  · injection h with h
    have hkept : ∀ c ∈ name.reverse ++ [':'], (c != '@') = true := by
      intro c hc
      rw [List.mem_append, List.mem_reverse, List.mem_singleton] at hc
      rcases hc with hc | rfl
      · have hne : c ≠ '@' := fun heq => hname (heq ▸ hc)
        simpa using hne
      · decide
    have hreverse : (front ++ ':' :: name).reverse = (name.reverse ++ [':']) ++ front.reverse := by
      simp
    rw [hreverse, List.takeWhile_append_of_pos hkept] at h
    rw [← h]
    simp
  · simp at h

theorem ofToken_eq_number_iff (token : String) : Kind.ofToken token = .number ↔ token = "number" := by
  unfold Kind.ofToken
  split
  · next h => exact iff_of_true rfl h
  · next h =>
    refine iff_of_false ?_ h
    split <;> exact nofun

theorem ofToken_eq_boolean_iff (token : String) :
    Kind.ofToken token = .boolean ↔ token = "boolean" := by
  unfold Kind.ofToken
  split
  · next h =>
    refine iff_of_false nofun ?_
    rw [h]
    decide
  · split
    · next h => exact iff_of_true rfl h
    · next h => exact iff_of_false nofun h

/-- A text with a colon in it names no kind. -/
theorem ofToken_piece_of_colon {token : List Char} (h : ':' ∈ token) :
    Kind.ofToken (piece token) = .text := by
  have hmem : ':' ∈ (piece token).toList := by
    rw [piece, String.toList_ofList]
    exact mem_strip (by decide) h
  have hne : ∀ word : String, ':' ∉ word.toList → piece token ≠ word := by
    rintro word hword rfl
    exact hword hmem
  rw [Kind.ofToken, if_neg (hne "number" (by decide)), if_neg (hne "boolean" (by decide))]

def kindOf (part : List Char) : Kind :=
  ((kindToken? part).map fun token => Kind.ofToken (piece token)).getD .text

namespace Segments

variable (s : Segments)

theorem at_not_mem_last {front : List (Char × List Char)} {mark : Char} {name : List Char}
    (hrest : s.rest = front ++ [(mark, name)]) : '@' ∉ name := fun hmem =>
  (s.plain (mark, name) (by rw [hrest]; simp) '@' hmem).2 rfl

theorem text_concat {front : List (Char × List Char)} {mark : Char} {name : List Char}
    (hrest : s.rest = front ++ [(mark, name)]) :
    s.text = (s.first ++ segmentsText front) ++ mark :: name := by
  rw [text, hrest, segmentsText_append, List.append_assoc]
  simp [segmentsText]

theorem kindOf_of_at {front : List (Char × List Char)} {token : List Char}
    (hrest : s.rest = front ++ [('@', token)]) : kindOf s.text = Kind.ofToken (piece token) := by
  rw [kindOf, s.text_concat hrest, Part.kindToken?_append (s.at_not_mem_last hrest)]
  rfl

theorem kindOf_of_colon {front : List (Char × List Char)} {name : List Char}
    (hrest : s.rest = front ++ [(':', name)]) : kindOf s.text = .text := by
  rw [kindOf, s.text_concat hrest]
  cases htoken : kindToken? ((s.first ++ segmentsText front) ++ ':' :: name) with
  | none => rfl
  | some token =>
    exact ofToken_piece_of_colon (colon_mem_of_kindToken? (s.at_not_mem_last hrest) htoken)

theorem kindOf_of_nil (hrest : s.rest = []) : kindOf s.text = .text := by
  have hat : '@' ∉ s.text := by
    rw [text, hrest]
    simpa [segmentsText] using fun hmem => (s.first_plain _ hmem).2 rfl
  rw [kindOf, kindToken?, if_neg hat]
  rfl

/-- **The kind is named by the last segment, after an at-sign, or not at all.** -/
theorem kindOf_eq_iff {kind : Kind} {word : String} (hword : kind ≠ .text)
    (htoken : ∀ token, Kind.ofToken token = kind ↔ token = word) :
    kindOf s.text = kind ↔
      ∃ front token, s.rest = front ++ [('@', token)] ∧ piece token = word := by
  rcases List.eq_nil_or_concat s.rest with hrest | ⟨front, ⟨mark, name⟩, hrest⟩
  · rw [s.kindOf_of_nil hrest]
    refine iff_of_false hword.symm ?_
    rintro ⟨front, token, hrest', -⟩
    simp [hrest] at hrest'
  · rw [List.concat_eq_append] at hrest
    have hmark := s.separator (mark, name) (by rw [hrest]; simp)
    rcases hmark with rfl | rfl
    · rw [s.kindOf_of_colon hrest]
      refine iff_of_false hword.symm ?_
      rintro ⟨front', token, hrest', -⟩
      have hlast := (List.append_inj' (hrest.symm.trans hrest') rfl).2
      simp at hlast
    · rw [s.kindOf_of_at hrest, htoken]
      constructor
      · intro hname
        exact ⟨front, name, hrest, hname⟩
      · rintro ⟨front', token, hrest', hname⟩
        have hlast := (List.append_inj' (hrest.symm.trans hrest') rfl).2
        obtain rfl : name = token := by simpa using hlast
        exact hname

theorem ofPart?_text_eq : Spec.ofPart? s.text =
    if piece s.first = "" then none
    else some (.ofAlias (piece s.first) ((aliasOf? s.text).map piece) (kindOf s.text)) := by
  rw [Spec.ofPart?, s.uptoSeparator_text_eq]
  rfl

end Segments

theorem source_ofAlias (source : String) (alias? : Option String) (kind : Kind) :
    (Spec.ofAlias source alias? kind).source = source := by
  cases alias? <;> rfl

theorem kind_ofAlias (source : String) (alias? : Option String) (kind : Kind) :
    (Spec.ofAlias source alias? kind).kind = kind := by
  cases alias? <;> rfl

/-- **What is read of a part, by its segments.**  Any part is cut into segments.  Without a key, the
segment before all separators, nothing is read.  With one, the target is the segment after the first
colon, and the key where there is no such segment or a blank one, and the kind is the last segment,
after an at-sign, if that names one. -/
theorem ofPart?_of_segments :
    (∀ part, ∃ s : Segments, s.text = part) ∧
    ∀ s : Segments,
      (piece s.first = "" ∧ Spec.ofPart? s.text = none) ∨
      (piece s.first ≠ "" ∧ ∃ spec, Spec.ofPart? s.text = some spec ∧
        spec.source = piece s.first ∧
        (∀ before name after, s.rest = before ++ (':', name) :: after →
          (∀ segment ∈ before, segment.1 ≠ ':') →
          spec.target = if piece name = "" then piece s.first else piece name) ∧
        ((∀ segment ∈ s.rest, segment.1 ≠ ':') → spec.target = piece s.first) ∧
        (spec.kind = .number ↔
          ∃ front token, s.rest = front ++ [('@', token)] ∧ piece token = "number") ∧
        (spec.kind = .boolean ↔
          ∃ front token, s.rest = front ++ [('@', token)] ∧ piece token = "boolean")) := by
  refine ⟨exists_segments, fun s => ?_⟩
  have hread := s.ofPart?_text_eq
  by_cases hkey : piece s.first = ""
  · rw [if_pos hkey] at hread
    exact .inl ⟨hkey, hread⟩
  · rw [if_neg hkey] at hread
    refine .inr ⟨hkey, _, hread, source_ofAlias _ _ _, ?named, ?unnamed, ?number, ?boolean⟩
    case named =>
      intro before name after hrest hbefore
      rw [s.aliasOf?_of_colon hrest hbefore]
      rfl
    case unnamed =>
      intro hrest
      rw [s.aliasOf?_of_no_colon hrest]
      rfl
    case number =>
      rw [kind_ofAlias]
      exact s.kindOf_eq_iff nofun ofToken_eq_number_iff
    case boolean =>
      rw [kind_ofAlias]
      exact s.kindOf_eq_iff nofun ofToken_eq_boolean_iff

/-- At-signs before the alias name no kind, and neither does one that a colon follows. -/
example : Spec.ofPart? "a@x:y@number".toList = some ⟨"a", "y", .number⟩ ∧
    Spec.ofPart? "a@number:b".toList = some ⟨"a", "b", .text⟩ := by decide +kernel

end Rowcast.Column
