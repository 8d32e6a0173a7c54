import Mathlib

/-!
# Texts with a separator between them

Each of the texts is part of the whole, and the first of them make up its front.
-/

namespace Rowcast.Text

variable {α : Type} (sep : List α)

theorem subset_intercalate {l : List α} {ls : List (List α)} (h : l ∈ ls) :
    l ⊆ sep.intercalate ls := by
  induction ls with
  | nil => simp at h
  | cons first rest ih =>
    cases rest with
    | nil =>
      rw [List.mem_singleton.mp h, List.intercalate_singleton]
      exact fun c hc => hc
    | cons second rest =>
      intro c hc
      rw [List.intercalate_cons_cons, List.mem_append, List.mem_append]
      rcases List.mem_cons.mp h with rfl | h
      · exact .inl (.inl hc)
      · exact .inr (ih h hc)

theorem prefix_intercalate {front ls : List (List α)} (h : front <+: ls) :
    sep.intercalate front <+: sep.intercalate ls := by
  induction front generalizing ls with
  | nil => exact List.nil_prefix
  | cons l front ih =>
    obtain ⟨rest, rfl⟩ := h
    cases front with
    | nil =>
      rw [List.intercalate_singleton, List.singleton_append]
      cases rest with
      | nil => rw [List.intercalate_singleton]
      | cons next rest =>
        rw [List.intercalate_cons_cons, List.append_assoc]
        exact List.prefix_append l _
    | cons next front =>
      rw [List.cons_append, List.cons_append, List.intercalate_cons_cons,
        List.intercalate_cons_cons]
      exact (List.prefix_append_right_inj _).mpr (ih (List.prefix_append (next :: front) rest))

end Rowcast.Text
