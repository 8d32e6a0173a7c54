import Rowcast.Proofs.Csv.Line

/-!
# Where rows start and stop

The places in a row are offsets into the input, and the lines are what stands between them.  This
file says how the two fit, each time by splitting the input where a row ends.

* `blankLinesAfter_stop`: asked at the place where a row stopped, `blankLinesAfter` counts the blank
  lines that follow the row.  The exception is a last row whose quotes are never closed: there it
  counts in the breaks at the end of the input, which are content, and `overcount` says how many.
* `stop_le_stop`, `start_next`: rows stop in order, and each starts where the one before stopped.
* `lines_take_stop`: **the input cut off where a row stopped has the lines up to that row**, and no
  blank line after it.
-/

namespace Rowcast.Csv

variable {d : Dialect} {bytes : Bytes}

theorem scan_eq (d : Dialect) (bytes : Bytes) :
    scan d bytes = (atEnd d bytes).finish := by
  unfold scan atEnd atFront markLength
  split <;> rfl

theorem scan_eq_rows (hd : d.Proper) (bytes : Bytes) :
    scan d bytes = (lines d bytes).filterMap Line.row? := by
  rw [scan_eq, atEnd, Scanner.rows_lines hd (atFront bytes) 0]
  rfl

theorem markLength_le (bytes : Bytes) : markLength bytes ≤ bytes.length := by
  unfold markLength
  split
  · next h => exact (List.isPrefixOf_iff_prefix.mp h).length_le
  · exact Nat.zero_le _

theorem fields_ne_nil (hd : d.Proper) {front back : List Line} {r : Row}
    (h : lines d bytes = front ++ .row r :: back) : r.fields ≠ [] := by
  have hcurrent : ∀ (s : Scanner) (stop : Place), (s.current stop).fields ≠ [] := by
    intro s stop hnil
    rw [Scanner.current, List.reverse_eq_nil_iff] at hnil
    exact List.cons_ne_nil _ _ hnil
  rcases Scanner.lines_eq_append_row hd h with ⟨a, b, t, -, -, -, -, hr, -⟩ | ⟨-, -, hr, -⟩
  · rw [hr]; exact hcurrent _ _
  · rw [hr]; exact hcurrent _ _

/-! ### Blank lines after a row -/

/-- How many blank lines are counted that are none: the breaks that end the input inside quotes are
taken for the end of a row and blank lines after it. -/
def overcount (d : Dialect) (bytes : Bytes) : Nat :=
  if EndsQuoted d bytes then countBreaks (breaksAtEnd bytes) - 1 else 0

theorem overcount_of_outside (h : (atEnd d bytes).state = .outside) : overcount d bytes = 0 := by
  have hnot : ¬ EndsQuoted d bytes := fun hq => State.noConfusion (h.symm.trans hq)
  exact if_neg hnot

/-- The lines of the input and what is taken for blank lines after them. -/
def linesCounted (d : Dialect) (bytes : Bytes) : List Line :=
  lines d bytes ++ List.replicate (overcount d bytes) .blank

theorem linesCounted_of_outside (h : (atEnd d bytes).state = .outside) :
    linesCounted d bytes = lines d bytes := by
  rw [linesCounted, overcount_of_outside h, List.replicate_zero, List.append_nil]

theorem lines_of_outside (h : (atEnd d bytes).state = .outside) :
    lines d bytes = (atFront bytes).completed d 0 (bytes.drop (markLength bytes)) := by
  rw [lines, Scanner.lines, ← atEnd, Scanner.openRow_outside h, List.append_nil]

theorem leadingBlanks_replicate (n : Nat) : leadingBlanks (List.replicate n .blank) = n := by
  rw [leadingBlanks, List.takeWhile_replicate]
  exact List.length_replicate

theorem leadingBlanks_append_row (front back : List Line) (r : Row) :
    leadingBlanks (front ++ .row r :: back) = leadingBlanks (front ++ [.row r]) := by
  induction front with
  | nil => rfl
  | cons l front ih =>
    cases l with
    | row _ => rfl
    | blank =>
      show leadingBlanks (front ++ .row r :: back) + 1 = leadingBlanks (front ++ [.row r]) + 1
      rw [ih]

/-- Lines that a row closes keep their leading blank lines whatever is put after them. -/
theorem leadingBlanks_lines_append (s : Scanner) (last : UInt8) (bytes : Bytes)
    (hs : (s.run d bytes).state ≠ .outside) (back : List Line) :
    leadingBlanks (s.lines d last bytes ++ back) = leadingBlanks (s.lines d last bytes) := by
  rw [Scanner.lines, Scanner.openRow_of_ne hs, List.append_assoc]
  exact leadingBlanks_append_row _ _ _

theorem advance_run_byte (s : Scanner) (a : Bytes) (t : UInt8) :
    (Scanner.advance (Scanner.run d s a).here t).byte = s.here.byte + a.length + 1 := by
  show (Scanner.run d s a).here.byte + 1 = _
  rw [Scanner.run_here_byte]

theorem atEnd_here_byte (d : Dialect) (bytes : Bytes) : (atEnd d bytes).here.byte = bytes.length := by
  have hle := markLength_le bytes
  rw [atEnd, Scanner.run_here_byte, List.length_drop]
  show markLength bytes + _ = _
  omega

/-- **The blank lines counted at the place where a row stopped are those that follow it.** -/
theorem blankLinesAfter_stop (hd : d.Proper) {front back : List Line} {r : Row}
    (h : lines d bytes = front ++ .row r :: back) :
    blankLinesAfter bytes r.stop.byte =
      leadingBlanks (back ++ List.replicate (overcount d bytes) .blank) := by
  have hsplit := List.take_append_drop (markLength bytes) bytes
  rcases Scanner.lines_eq_append_row hd h with ⟨a, b, t, hbytes, ht, hs, -, hr, hback⟩ |
    ⟨hs, -, hr, rfl⟩
  · -- The run that ends the row is its break `t` and the breaks that come next.
    obtain ⟨hne, hsolid⟩ := Scanner.solidEnd_of_endsRow hd rfl hs
    have hstop : r.stop = Scanner.advance (Scanner.run d (atFront bytes) a).here t := by rw [hr]; rfl
    have hbyte : r.stop.byte = (bytes.take (markLength bytes) ++ a).length + 1 := by
      rw [hstop, advance_run_byte, List.length_append,
        List.length_take_of_le (markLength_le bytes)]
      rfl
    have hcount : blankLinesAfter bytes r.stop.byte =
        countBreaks (t :: b.takeWhile isBreak) - 1 := by
      have h := blankLinesAfter_break (solidEnd_append hne hsolid (bytes.take (markLength bytes)))
        ht b
      rw [← hbyte, List.append_assoc, ← hbytes, hsplit] at h
      exact h
    have hfinal : atEnd d bytes =
        Scanner.run d ((Scanner.run d (atFront bytes) a).endRow r.stop) b := by
      rw [atEnd, hbytes, Scanner.run_append, Scanner.run_cons, Scanner.step_endsRow hd hs ht, hstop]
    have hnext := Scanner.leadingBlanks_lines hd
      (s := (Scanner.run d (atFront bytes) a).endRow r.stop) rfl t b
    rw [hcount, ← hnext, Nat.add_sub_cancel, hback]
    by_cases hq : EndsQuoted d bytes
    · rw [EndsQuoted, hfinal] at hq
      rw [leadingBlanks_lines_append _ _ _ (by rw [hq]; exact nofun)]
    · rw [overcount, if_neg hq, List.replicate_zero, List.append_nil]
  · -- The row is the last line, and its reading stops at the end of input.
    have hbyte : r.stop.byte = bytes.length := by
      rw [hr]
      exact atEnd_here_byte d bytes
    rw [hbyte, blankLinesAfter_length, List.nil_append, leadingBlanks_replicate]
    by_cases hq : EndsQuoted d bytes
    · rw [overcount, if_pos hq]
    · have hends : (atEnd d bytes).state.endsRow = true := by
        cases hstate : (atEnd d bytes).state with
        | outside => exact absurd hstate hs
        | quoted => exact absurd hstate hq
        | fieldStart | bare | quoteSeen => rfl
      obtain ⟨hne, hsolid⟩ := Scanner.solidEnd_of_endsRow hd rfl hends
      have hwhole := solidEnd_append hne hsolid (bytes.take (markLength bytes))
      rw [hsplit] at hwhole
      rw [overcount, if_neg hq, breaksAtEnd_of_solidEnd hwhole]
      rfl

/-! ### The order of places -/

theorem here_le_stop (hd : d.Proper) {s : Scanner} {last : UInt8} {front back : List Line} {r : Row}
    (h : s.lines d last bytes = front ++ .row r :: back) : s.here.byte ≤ r.stop.byte := by
  rcases Scanner.lines_eq_append_row hd h with ⟨a, _, t, -, -, -, -, hr, -⟩ | ⟨-, -, hr, -⟩
  · rw [hr]
    show s.here.byte ≤ (Scanner.advance (Scanner.run d s a).here t).byte
    rw [advance_run_byte]
    omega
  · rw [hr]
    show s.here.byte ≤ (Scanner.run d s bytes).here.byte
    rw [Scanner.run_here_byte]
    omega

theorem stop_le_stop (hd : d.Proper) {front mid back : List Line} {r r' : Row}
    (h : lines d bytes = front ++ .row r :: (mid ++ .row r' :: back)) :
    r.stop.byte ≤ r'.stop.byte := by
  rcases Scanner.lines_eq_append_row hd h with ⟨a, b, t, -, -, -, -, -, hback⟩ | ⟨-, -, -, hback⟩
  · exact here_le_stop hd hback.symm
  · simp at hback

/-- As long as no row is complete the row to come starts where it started. -/
theorem run_start (hd : d.Proper) {s : Scanner} {last : UInt8}
    (h : ∀ l ∈ s.completed d last bytes, l = .blank) : (s.run d bytes).start = s.start := by
  induction bytes generalizing s last with
  | nil => rfl
  | cons b bytes ih =>
    have hrest : ∀ l ∈ (s.step d b).completed d b bytes, l = .blank :=
      fun l hl => h l (List.mem_append_right _ hl)
    have hline : ∀ l ∈ s.lineAt last b, l = .blank :=
      fun l hl => h l (List.mem_append_left _ (by rw [Option.mem_toList]; exact hl))
    rw [Scanner.run_cons, ih hrest]
    cases hb : isBreak b with
    | false => exact (Scanner.step_solid d s hb).2.2
    | true =>
      cases hs : s.state with
      | outside => rw [Scanner.step_outside hs hb]
      | quoted => rw [Scanner.step_quoted hd hs hb]
      | fieldStart | bare | quoteSeen =>
        have hends : s.state.endsRow = true := by rw [hs]; rfl
        have := hline _ (Scanner.lineAt_endsRow hends last hb)
        simp at this

theorem start_of_blanks (hd : d.Proper) {s : Scanner} {last : UInt8} {front back : List Line}
    {r : Row} (h : s.lines d last bytes = front ++ .row r :: back)
    (hfront : ∀ l ∈ front, l = .blank) : r.start = s.start := by
  rcases Scanner.lines_eq_append_row hd h with ⟨a, _, t, -, -, -, rfl, hr, -⟩ | ⟨-, rfl, hr, -⟩
  · rw [hr]
    exact run_start hd hfront
  · rw [hr]
    exact run_start hd hfront

/-- The first row starts at the front, whatever is passed over before it. -/
theorem start_first (hd : d.Proper) {front back : List Line} {r : Row}
    (h : lines d bytes = front ++ .row r :: back) (hfront : ∀ l ∈ front, l = .blank) :
    r.start = ⟨1, 0⟩ := start_of_blanks hd h hfront

/-- Any other row starts where the row before it stopped. -/
theorem start_next (hd : d.Proper) {front mid back : List Line} {r r' : Row}
    (h : lines d bytes = front ++ .row r :: (mid ++ .row r' :: back))
    (hmid : ∀ l ∈ mid, l = .blank) : r'.start = r.stop := by
  rcases Scanner.lines_eq_append_row hd h with ⟨a, b, t, -, -, -, -, -, hback⟩ | ⟨-, -, -, hback⟩
  · exact start_of_blanks hd hback.symm hmid
  · simp at hback

/-! ### More input -/

/-- No line break is part of a byte order mark, so what follows one adds no mark. -/
theorem markLength_append_of_break {front : Bytes} (h : ∃ t ∈ front, isBreak t = true)
    (back : Bytes) : markLength (front ++ back) = markLength front := by
  have hiff : byteOrderMark.isPrefixOf (front ++ back) = true ↔
      byteOrderMark.isPrefixOf front = true := by
    rw [List.isPrefixOf_iff_prefix, List.isPrefixOf_iff_prefix]
    refine ⟨fun hmark => ?_, fun hmark => hmark.trans (List.prefix_append front back)⟩
    refine (List.prefix_or_prefix_of_prefix hmark (List.prefix_append front back)).resolve_right ?_
    intro hpart
    obtain ⟨t, ht, hbreak⟩ := h
    have hmark : byteOrderMark.all (fun b => !isBreak b) = true := rfl
    have hsolid := List.all_eq_true.mp hmark t (hpart.subset ht)
    rw [hbreak] at hsolid
    exact Bool.false_ne_true hsolid
  unfold markLength
  by_cases hmark : byteOrderMark.isPrefixOf front = true
  · rw [if_pos hmark, if_pos (hiff.mpr hmark)]
  · rw [if_neg hmark, if_neg fun h => hmark (hiff.mp h)]

/-- Where no row is open the lines so far stay, and more lines come after them. -/
theorem lines_append_of_outside {front : Bytes} (h : ∃ t ∈ front, isBreak t = true)
    (hout : (atEnd d front).state = .outside) (back : Bytes) :
    lines d (front ++ back) = lines d front ++
        (atEnd d front).lines d ((front.drop (markLength front)).getLastD 0) back ∧
      atEnd d (front ++ back) = Scanner.run d (atEnd d front) back := by
  have hmark := markLength_append_of_break h back
  have hfront : atFront (front ++ back) = atFront front := by rw [atFront, hmark, atFront]
  have hdrop : (front ++ back).drop (markLength front) = front.drop (markLength front) ++ back :=
    List.drop_append_of_le_length (markLength_le front)
  refine ⟨?_, ?_⟩
  · rw [lines, hmark, hfront, hdrop, Scanner.lines_append, lines_of_outside hout, atEnd]
  · rw [atEnd, hmark, hfront, hdrop, Scanner.run_append, atEnd]

/-! ### The input cut off after a row -/

theorem markLength_take {n : Nat} (h : markLength bytes ≤ n) :
    markLength (bytes.take n) = markLength bytes := by
  unfold markLength at h ⊢
  by_cases hp : byteOrderMark.isPrefixOf bytes = true
  · rw [if_pos hp] at h ⊢
    rw [if_pos]
    rw [List.isPrefixOf_iff_prefix] at hp ⊢
    exact List.prefix_take_iff.mpr ⟨hp, h⟩
  · rw [if_neg hp, if_neg]
    intro h'
    rw [List.isPrefixOf_iff_prefix] at hp h'
    exact hp (h'.trans (List.take_prefix n bytes))

/-- **The input cut off where a row stopped has the lines up to that row**, and none is counted
beyond them. -/
theorem lines_take_stop (hd : d.Proper) {front back : List Line} {r : Row}
    (h : lines d bytes = front ++ .row r :: back) (hback : back ≠ []) :
    r.stop.byte ≤ bytes.length ∧ lines d (bytes.take r.stop.byte) = front ++ [.row r] ∧
      overcount d (bytes.take r.stop.byte) = 0 := by
  rcases Scanner.lines_eq_append_row hd h with ⟨a, b, t, hbytes, ht, hs, hfront, hr, -⟩ |
    ⟨-, -, -, rfl⟩
  · have hstop : r.stop = Scanner.advance (Scanner.run d (atFront bytes) a).here t := by rw [hr]; rfl
    have hbyte : r.stop.byte = markLength bytes + (a.length + 1) := by
      rw [hstop, advance_run_byte, Nat.add_assoc]
      rfl
    have hmark : markLength (bytes.take r.stop.byte) = markLength bytes :=
      markLength_take (by omega)
    have hdrop : (bytes.take r.stop.byte).drop (markLength bytes) = a ++ [t] := by
      rw [hbyte, List.drop_take, Nat.add_sub_cancel_left, hbytes, List.take_append,
        List.take_of_length_le (by omega)]
      simp
    have hrun : Scanner.run d (atFront bytes) (a ++ [t]) =
        (Scanner.run d (atFront bytes) a).endRow r.stop := by
      rw [Scanner.run_concat, Scanner.step_endsRow hd hs ht, hstop]
    have hfront' : atFront (bytes.take r.stop.byte) = atFront bytes := by
      rw [atFront, hmark, atFront]
    have hrow : (Scanner.run d (atFront bytes) a).current r.stop = r := by
      rw [hstop]
      exact hr.symm
    refine ⟨?_, ?_, ?_⟩
    · have hlen := congrArg List.length hbytes
      rw [List.length_drop, List.length_append, List.length_cons] at hlen
      omega
    · rw [lines, hmark, hdrop, hfront', Scanner.lines, Scanner.completed_append, hrun,
        Scanner.openRow_outside rfl, List.append_nil, ← hfront, Scanner.completed,
        Scanner.lineAt_endsRow hs _ ht, ← hstop, Scanner.completed, List.append_nil, hrow]
      rfl
    · have hend : (atEnd d (bytes.take r.stop.byte)).state = .outside := by
        rw [atEnd, hmark, hdrop, hfront', hrun]
        rfl
      exact overcount_of_outside hend
  · exact absurd rfl hback

end Rowcast.Csv
