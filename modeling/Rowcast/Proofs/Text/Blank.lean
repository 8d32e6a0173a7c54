import Mathlib
import Rowcast.Text.Blank

/-!
# Texts without blank space at their ends

A list is `Tidy` when neither its first nor its last element is one to drop.  `strip` gives tidy
lists (`tidy_strip`).  What it drops around a list makes no difference to it (`strip_append`), so it
gives back a tidy list from among whatever it drops around it (`strip_around`).
-/

namespace Rowcast.Text

variable {α : Type} {p : α → Bool}

/-- Neither the first nor the last element satisfies `p`. -/
structure Tidy (p : α → Bool) (s : List α) : Prop where
  head : ∀ c ∈ s.head?, p c = false
  last : ∀ c ∈ s.getLast?, p c = false

instance (p : α → Bool) (s : List α) : Decidable (Tidy p s) :=
  decidable_of_iff (s.head?.any p = false ∧ s.getLast?.any p = false)
    ⟨fun h => ⟨(Option.any_eq_false p _).mp h.1, (Option.any_eq_false p _).mp h.2⟩,
      fun h => ⟨(Option.any_eq_false p _).mpr h.head, (Option.any_eq_false p _).mpr h.last⟩⟩

theorem Tidy.dropWhile_eq {s : List α} (h : Tidy p s) : s.dropWhile p = s := by
  cases s with
  | nil => rfl
  | cons c rest =>
    have hc : p c = false := h.head c rfl
    rw [List.dropWhile_cons_of_neg (by rw [hc]; exact Bool.false_ne_true)]

theorem Tidy.reverse {s : List α} (h : Tidy p s) : Tidy p s.reverse where
  head := by rw [List.head?_reverse]; exact h.last
  last := by rw [List.getLast?_reverse]; exact h.head

/-- A tidy list has nothing to drop. -/
theorem Tidy.strip_eq {s : List α} (h : Tidy p s) : strip p s = s := by
  rw [strip, h.dropWhile_eq, dropEnd, h.reverse.dropWhile_eq, List.reverse_reverse]

theorem dropEnd_append (s : List α) {right : List α} (hright : ∀ c ∈ right, p c = true) :
    dropEnd p (s ++ right) = dropEnd p s := by
  have hdropped : ∀ c ∈ right.reverse, p c = true := fun c hc => hright c (List.mem_reverse.mp hc)
  rw [dropEnd, List.reverse_append, List.dropWhile_append_of_pos hdropped, dropEnd]

/-- **What is dropped around a list makes no difference.** -/
theorem strip_append {left right : List α} (hleft : ∀ c ∈ left, p c = true) (s : List α)
    (hright : ∀ c ∈ right, p c = true) : strip p (left ++ s ++ right) = strip p s := by
  rw [strip, List.append_assoc, List.dropWhile_append_of_pos hleft, List.dropWhile_append]
  split
  · next hs =>
    have hnil : right.dropWhile p = [] := List.dropWhile_eq_nil_iff.mpr hright
    rw [hnil, strip, List.isEmpty_iff.mp hs]
  · exact dropEnd_append (s.dropWhile p) hright

/-- **What is dropped around a tidy list leaves the list.** -/
theorem strip_around {left s right : List α} (hleft : ∀ c ∈ left, p c = true) (hs : Tidy p s)
    (hright : ∀ c ∈ right, p c = true) : strip p (left ++ s ++ right) = s := by
  rw [strip_append hleft s hright, hs.strip_eq]

theorem strip_eq_nil {s : List α} (h : ∀ c ∈ s, p c = true) : strip p s = [] := by
  have hdropped : s.dropWhile p = [] := List.dropWhile_eq_nil_iff.mpr h
  rw [strip, hdropped]
  rfl

theorem strip_subset (p : α → Bool) (s : List α) : strip p s ⊆ s := by
  have hfront : s.dropWhile p ⊆ s := (List.dropWhile_suffix p).subset
  exact List.Subset.trans (List.rdropWhile_prefix p _).subset hfront

/-- What is dropped stands at the ends. -/
theorem exists_around_strip (p : α → Bool) (s : List α) :
    ∃ left right, s = left ++ strip p s ++ right ∧
      (∀ c ∈ left, p c = true) ∧ ∀ c ∈ right, p c = true := by
  refine ⟨s.takeWhile p, (s.dropWhile p).rtakeWhile p, ?_, fun c => List.mem_takeWhile_imp,
    fun c => List.mem_rtakeWhile_imp⟩
  have hend : strip p s ++ (s.dropWhile p).rtakeWhile p = s.dropWhile p :=
    List.rdropWhile_append_rtakeWhile
  rw [List.append_assoc, hend, List.takeWhile_append_dropWhile]

theorem mem_strip {s : List α} {c : α} (hc : p c = false) (h : c ∈ s) : c ∈ strip p s := by
  obtain ⟨left, right, hs, hleft, hright⟩ := exists_around_strip p s
  rw [hs, List.mem_append, List.mem_append] at h
  rcases h with (h | h) | h
  · exact absurd (hleft c h) (by rw [hc]; exact Bool.false_ne_true)
  · exact h
  · exact absurd (hright c h) (by rw [hc]; exact Bool.false_ne_true)

/-- **Stripping leaves nothing to drop.** -/
theorem tidy_strip (p : α → Bool) (s : List α) : Tidy p (strip p s) where
  head := by
    intro c hc
    -- What is left starts where the list starts once its front is dropped.
    have hfront : c ∈ (s.dropWhile p).head? := by
      obtain ⟨rest, hrest⟩ := List.rdropWhile_prefix p (s.dropWhile p)
      rw [← hrest]
      exact List.mem_head?_append_of_mem_head? hc
    have hnot := List.head?_dropWhile_not p s
    rw [Option.mem_def.mp hfront] at hnot
    exact hnot
  last := by
    intro c hc
    obtain ⟨hne, hlast⟩ := List.mem_getLast?_eq_getLast hc
    have hnot := List.rdropWhile_last_not p (s.dropWhile p) hne
    rw [hlast]
    exact Bool.eq_false_iff.mpr hnot

theorem isAllBlank_eq_false_iff {s : String} :
    isAllBlank s = false ↔ ∃ c ∈ s.toList, isBlank c = false := by
  simp [isAllBlank]

end Rowcast.Text
