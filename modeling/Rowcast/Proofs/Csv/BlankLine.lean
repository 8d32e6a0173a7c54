import Rowcast.Csv.BlankLine

/-!
# Counting blank lines around a place

`blankLinesAfter` looks at the run of line breaks around an offset, both ways.  `breaks_of_run`
says that it finds the whole run wherever in it the offset lies, also between the two bytes of
`\r\n` and also beyond the end of the input, so that `blankLinesAfter_of_run` can speak of the
run alone: it is one less than `countBreaks` of the run.

`countBreaks` pairs a carriage return with the line feed after it.  `countBreaks_cons_cons` says
that this can be decided from two neighbours at a time, which is how a scanner meets them.

A reading moves one cursor on from row to row.  By `moveTo_moveTo` that is the same as starting
over from the front for every row.
-/

namespace Rowcast.Csv

/-! ### Line breaks in a run -/

theorem countBreaks_lineFeed_cons (rest : Bytes) :
    countBreaks (lineFeed :: rest) = countBreaks rest + 1 := by
  cases rest with
  | nil => rfl
  | cons b rest =>
    have h : ¬ (lineFeed == carriageReturn && b == lineFeed) = true := by
      rw [show (lineFeed == carriageReturn) = false from rfl, Bool.false_and]
      exact Bool.false_ne_true
    rw [countBreaks, if_neg h]

/-- **A byte of the run is one more break unless it is the line feed of a `\r\n`.** -/
theorem countBreaks_cons_cons (a b : UInt8) (rest : Bytes) :
    countBreaks (a :: b :: rest) =
      (if a = carriageReturn ∧ b = lineFeed then 0 else 1) + countBreaks (b :: rest) := by
  by_cases h : a = carriageReturn ∧ b = lineFeed
  · obtain ⟨rfl, rfl⟩ := h
    rw [countBreaks, if_pos (by decide), if_pos ⟨rfl, rfl⟩, countBreaks_lineFeed_cons, Nat.zero_add]
  · have h' : ¬ (a == carriageReturn && b == lineFeed) = true := by simpa using h
    rw [countBreaks, if_neg h', if_neg h, Nat.add_comm]

/-! ### The run around an offset -/

/-- The bytes do not end in a line break. -/
def SolidEnd (bytes : Bytes) : Prop := ∀ b, bytes.getLast? = some b → isBreak b = false

def SolidFront (bytes : Bytes) : Prop := ∀ b, bytes.head? = some b → isBreak b = false

def breaksAtEnd (bytes : Bytes) : Bytes := (bytes.reverse.takeWhile isBreak).reverse

theorem takeWhile_of_solidFront {bytes : Bytes} (h : SolidFront bytes) :
    bytes.takeWhile isBreak = [] := by
  cases bytes with
  | nil => rfl
  | cons b bytes => rw [List.takeWhile_cons, h b rfl]; rfl

theorem solidFront_reverse {bytes : Bytes} (h : SolidEnd bytes) : SolidFront bytes.reverse := by
  intro b hb
  rw [List.head?_reverse] at hb
  exact h b hb

theorem takeWhile_append_of_breaks {run : Bytes} (hrun : ∀ b ∈ run, isBreak b = true)
    {rest : Bytes} (hrest : SolidFront rest) : (run ++ rest).takeWhile isBreak = run := by
  rw [List.takeWhile_append_of_pos hrun, takeWhile_of_solidFront hrest, List.append_nil]

theorem breaksAtEnd_append {bytes run : Bytes} (hbytes : SolidEnd bytes)
    (hrun : ∀ b ∈ run, isBreak b = true) : breaksAtEnd (bytes ++ run) = run := by
  rw [breaksAtEnd, List.reverse_append,
    takeWhile_append_of_breaks (by simpa using hrun) (solidFront_reverse hbytes),
    List.reverse_reverse]

theorem breaks_moveTo (bytes : Bytes) (offset : Nat) :
    ((Cursor.front bytes).moveTo offset).breaks =
      breaksAtEnd (bytes.take offset) ++ (bytes.drop offset).takeWhile isBreak := by
  rw [Cursor.moveTo_front, Cursor.breaks, breaksAtEnd]

/-- **A place anywhere in a run of line breaks finds the whole run.** -/
theorem breaks_of_run {before run after : Bytes} (hbefore : SolidEnd before)
    (hrun : ∀ b ∈ run, isBreak b = true) (hafter : SolidFront after) {offset : Nat}
    (hle : before.length ≤ offset) (hge : after = [] ∨ offset ≤ before.length + run.length) :
    ((Cursor.front (before ++ run ++ after)).moveTo offset).breaks = run := by
  obtain ⟨k, rfl⟩ : ∃ k, offset = before.length + k := ⟨offset - before.length, by omega⟩
  have htake : breaksAtEnd (before ++ run.take k) = run.take k :=
    breaksAtEnd_append hbefore fun b hb => hrun b (List.mem_of_mem_take hb)
  rw [breaks_moveTo, List.append_assoc, List.take_length_add_append, List.drop_length_add_append]
  rcases hge with rfl | hk
  · have hdrop : (run.drop k ++ []).takeWhile isBreak = run.drop k :=
      takeWhile_append_of_breaks (fun b hb => hrun b (List.mem_of_mem_drop hb))
        (fun b hb => by simp at hb)
    rw [List.append_nil] at hdrop
    rw [List.append_nil, htake, hdrop, List.take_append_drop]
  · rw [List.take_append_of_le_length (by omega), List.drop_append_of_le_length (by omega), htake,
      takeWhile_append_of_breaks (fun b hb => hrun b (List.mem_of_mem_drop hb)) hafter,
      List.take_append_drop]

/-- The count depends on the run alone and not on where in it the offset lies. -/
theorem blankLinesAfter_of_run {before run after : Bytes} (hbefore : SolidEnd before)
    (hrun : ∀ b ∈ run, isBreak b = true) (hafter : SolidFront after) {offset : Nat}
    (hle : before.length ≤ offset) (hge : after = [] ∨ offset ≤ before.length + run.length) :
    blankLinesAfter (before ++ run ++ after) offset = countBreaks run - 1 := by
  rw [blankLinesAfter, Cursor.blankLines, breaks_of_run hbefore hrun hafter hle hge]

theorem solidFront_dropWhile (bytes : Bytes) : SolidFront (bytes.dropWhile isBreak) := by
  intro b hb
  have h := List.head?_dropWhile_not isBreak bytes
  rw [hb] at h
  exact h

/-- Right after the break that ends a row, its run is that break and the breaks that come next. -/
theorem blankLinesAfter_break {before : Bytes} (hbefore : SolidEnd before) {t : UInt8}
    (ht : isBreak t = true) (after : Bytes) :
    blankLinesAfter (before ++ t :: after) (before.length + 1) =
      countBreaks (t :: after.takeWhile isBreak) - 1 := by
  have hsplit : before ++ t :: after =
      before ++ (t :: after.takeWhile isBreak) ++ after.dropWhile isBreak := by
    rw [List.append_assoc, List.cons_append, List.takeWhile_append_dropWhile]
  have hrun : ∀ b ∈ t :: after.takeWhile isBreak, isBreak b = true := by
    intro b hb
    rcases List.mem_cons.mp hb with rfl | hb
    · exact ht
    · exact List.all_eq_true.mp List.all_takeWhile b hb
  rw [hsplit]
  refine blankLinesAfter_of_run hbefore hrun (solidFront_dropWhile after) (Nat.le_succ _) (Or.inr ?_)
  rw [List.length_cons]
  omega

theorem breaksAtEnd_of_solidEnd {bytes : Bytes} (h : SolidEnd bytes) : breaksAtEnd bytes = [] := by
  rw [← List.append_nil bytes]
  exact breaksAtEnd_append h fun b hb => by simp at hb

theorem solidEnd_append {bytes : Bytes} (hne : bytes ≠ []) (h : SolidEnd bytes) (front : Bytes) :
    SolidEnd (front ++ bytes) := by
  intro b hb
  rw [List.getLast?_append, List.getLast?_eq_some_getLast hne, Option.some_or] at hb
  exact h b (by rw [List.getLast?_eq_some_getLast hne]; exact hb)

theorem blankLinesAfter_length (bytes : Bytes) :
    blankLinesAfter bytes bytes.length = countBreaks (breaksAtEnd bytes) - 1 := by
  rw [blankLinesAfter, Cursor.blankLines, breaks_moveTo, List.take_length, List.drop_length,
    List.takeWhile_nil, List.append_nil]

/-! ### Moving on -/

theorem forward_forward (m n : Nat) (cursor : Cursor) :
    (cursor.forward m).forward n = cursor.forward (m + n) := by
  induction m generalizing cursor with
  | zero => rw [Nat.zero_add]; rfl
  | succ m ih =>
    obtain ⟨offset, before, after⟩ := cursor
    cases after with
    | nil => rw [Cursor.forward_eq, Cursor.forward_eq, Cursor.forward_eq]; simp
    | cons b after => rw [Nat.succ_add]; exact ih ⟨offset + 1, b :: before, after⟩

/-- Moving on to a later offset is moving there from the front. -/
theorem moveTo_moveTo (bytes : Bytes) {m n : Nat} (h : m ≤ n) :
    ((Cursor.front bytes).moveTo m).moveTo n = (Cursor.front bytes).moveTo n := by
  rcases Nat.le_total m bytes.length with hm | hm
  · have hoffset : ((Cursor.front bytes).moveTo m).offset = m := by
      rw [Cursor.moveTo_front]
      exact Nat.min_eq_left hm
    rw [Cursor.moveTo, hoffset, Cursor.moveTo, forward_forward, Cursor.moveTo]
    congr 1
    show m - 0 + (n - m) = n - 0
    omega
  · have hn : bytes.length ≤ n := by omega
    rw [Cursor.moveTo_front, Cursor.moveTo_front, Cursor.moveTo, Cursor.forward_eq,
      List.drop_of_length_le hm, List.drop_of_length_le hn, List.take_of_length_le hm,
      List.take_of_length_le hn, Nat.min_eq_right hm, Nat.min_eq_right hn]
    simp

end Rowcast.Csv
