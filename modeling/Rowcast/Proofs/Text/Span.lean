import Mathlib

/-!
# Where a scan stops

A scan takes characters off the front while they satisfy `p`.  It takes off exactly what is put in
front of a text that does not begin with such a character (`span_append`).
-/

namespace Rowcast.Text

variable {p : Char → Bool}

/-- The first character, if there is one, does not satisfy `p`. -/
def Stops (p : Char → Bool) (s : List Char) : Prop := ∀ c ∈ s.head?, p c = false

theorem stops_nil (p : Char → Bool) : Stops p [] := by
  intro c hc
  simp at hc

theorem stops_cons {c : Char} (h : p c = false) (s : List Char) : Stops p (c :: s) := by
  intro a ha
  simp only [List.head?_cons, Option.mem_some_iff] at ha
  rw [← ha]
  exact h

theorem stops_append {t rest : List Char} (ht : Stops p t) (hrest : Stops p rest) :
    Stops p (t ++ rest) := by
  cases t with
  | nil => exact hrest
  | cons c t => exact stops_cons (ht c rfl) _

theorem takeWhile_of_stops {s : List Char} (h : Stops p s) :
    s.takeWhile p = [] ∧ s.dropWhile p = s := by
  cases s with
  | nil => exact ⟨rfl, rfl⟩
  | cons c s =>
    have hc : p c = false := h c rfl
    simp [hc]

theorem span_append {t rest : List Char} (ht : ∀ c ∈ t, p c = true) (hrest : Stops p rest) :
    (t ++ rest).takeWhile p = t ∧ (t ++ rest).dropWhile p = rest := by
  obtain ⟨htake, hdrop⟩ := takeWhile_of_stops hrest
  rw [List.takeWhile_append_of_pos ht, List.dropWhile_append_of_pos ht, htake, hdrop,
    List.append_nil]
  exact ⟨rfl, rfl⟩

end Rowcast.Text
