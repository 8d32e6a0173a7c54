import Rowcast.Proofs.Csv.BlankLine

/-!
# The lines of an input

Delimited text is a sequence of lines: rows, and blank lines between them.  The scanner passes over
blank lines, so this file says what they are without it looking back: a line break met where no row
has begun is a blank line of its own, unless it is the line feed of a `\r\n` whose carriage return
has been counted; inside quotes a line break is content; anywhere else it ends the row.  `lines`
lists what one pass over the bytes meets in this way.

* `rows_lines`: the rows among the lines are the rows of `scan`.
* `lines_eq_append_row`: **where a row stands among the lines, the bytes split at its end.**  What
  follows about places comes from this one induction.
* `leadingBlanks_lines`: the blank lines met next are those of the run of breaks that comes next.
-/

namespace Rowcast.Csv

/-- The delimiter and the quote can be told from each other and from line breaks. -/
structure Dialect.Proper (d : Dialect) : Prop where
  differ : d.delimiter ≠ d.quote
  delimiter_solid : isBreak d.delimiter = false
  quote_solid : isBreak d.quote = false

inductive Line where
  | row (row : Row)
  | blank
  deriving DecidableEq

namespace Line

def isBlank : Line → Bool
  | blank => true
  | row _ => false

def row? : Line → Option Row
  | row r => some r
  | blank => none

end Line

def leadingBlanks (lines : List Line) : Nat := (lines.takeWhile Line.isBlank).length

/-- A line break in this state ends the row. -/
def State.endsRow : State → Bool
  | .fieldStart | .bare | .quoteSeen => true
  | .outside | .quoted => false

namespace Scanner

/-- The row that the scanner is in, were it to stop at a place. -/
def current (s : Scanner) (stop : Place) : Row :=
  ⟨(s.field.reverse :: s.fields).reverse, s.start, stop⟩

/-- The line that byte `b` completes, where the byte before it was `last`. -/
def lineAt (s : Scanner) (last b : UInt8) : Option Line :=
  if isBreak b then
    match s.state with
    | .outside => if last = carriageReturn ∧ b = lineFeed then none else some .blank
    | .quoted => none
    | .fieldStart | .bare | .quoteSeen => some (.row (s.current (advance s.here b)))
  else none

def completed (d : Dialect) (s : Scanner) (last : UInt8) : Bytes → List Line
  | [] => []
  | b :: bytes => (s.lineAt last b).toList ++ completed d (s.step d b) b bytes

/-- The row that the end of input completes. -/
def openRow (s : Scanner) : List Line :=
  match s.state with
  | .outside => []
  | _ => [.row (s.current s.here)]

/-- The lines that the bytes complete, the input ending after them. -/
def lines (d : Dialect) (s : Scanner) (last : UInt8) (bytes : Bytes) : List Line :=
  s.completed d last bytes ++ (run d s bytes).openRow

end Scanner

def markLength (bytes : Bytes) : Nat :=
  if byteOrderMark.isPrefixOf bytes then byteOrderMark.length else 0

def atFront (bytes : Bytes) : Scanner := .atOffset (markLength bytes)

/-- The lines of the input. There is no byte before the first, so it follows no carriage return. -/
def lines (d : Dialect) (bytes : Bytes) : List Line :=
  (atFront bytes).lines d 0 (bytes.drop (markLength bytes))

def atEnd (d : Dialect) (bytes : Bytes) : Scanner :=
  Scanner.run d (atFront bytes) (bytes.drop (markLength bytes))

def EndsQuoted (d : Dialect) (bytes : Bytes) : Prop := (atEnd d bytes).state = .quoted

instance (d : Dialect) (bytes : Bytes) : Decidable (EndsQuoted d bytes) :=
  inferInstanceAs (Decidable (_ = State.quoted))

namespace Scanner

variable {d : Dialect}

/-! ### What one byte does -/

theorem step_here (d : Dialect) (s : Scanner) (b : UInt8) :
    (s.step d b).here = advance s.here b := by
  unfold step
  split <;> rfl

/-- A line break where no row has begun is passed over. -/
theorem step_outside {s : Scanner} (hs : s.state = .outside) {b : UInt8} (hb : isBreak b = true) :
    s.step d b = { s with here := advance s.here b } := by
  unfold step
  rw [hs, Dialect.transition, if_pos hb]

/-- Inside quotes a line break is content. -/
theorem step_quoted (hd : d.Proper) {s : Scanner} (hs : s.state = .quoted) {b : UInt8}
    (hb : isBreak b = true) :
    s.step d b = { s with here := advance s.here b, field := b :: s.field } := by
  have hq : ¬ (b == d.quote) = true := by
    intro h
    rw [eq_of_beq h, hd.quote_solid] at hb
    exact Bool.false_ne_true hb
  unfold step
  rw [hs, Dialect.transition, if_neg hq]

/-- Elsewhere a line break ends the row. -/
theorem step_endsRow (hd : d.Proper) {s : Scanner} (hs : s.state.endsRow = true) {b : UInt8}
    (hb : isBreak b = true) : s.step d b = s.endRow (advance s.here b) := by
  have hq : ¬ (b == d.quote) = true := by
    intro h
    rw [eq_of_beq h, hd.quote_solid] at hb
    exact Bool.false_ne_true hb
  have hdel : ¬ (b == d.delimiter) = true := by
    intro h
    rw [eq_of_beq h, hd.delimiter_solid] at hb
    exact Bool.false_ne_true hb
  cases hstate : s.state with
  | outside => rw [hstate] at hs; exact absurd hs Bool.false_ne_true
  | quoted => rw [hstate] at hs; exact absurd hs Bool.false_ne_true
  | fieldStart =>
    unfold step
    rw [hstate, Dialect.transition, Dialect.atFieldStart, if_neg hq, if_neg hdel, if_pos hb]
  | bare =>
    unfold step
    rw [hstate, Dialect.transition, if_neg hdel, if_pos hb]
  | quoteSeen =>
    unfold step
    rw [hstate, Dialect.transition, if_neg hq, if_neg hdel, if_pos hb]

theorem transition_solid (d : Dialect) {b : UInt8} (hb : isBreak b = false) (state : State) :
    (d.transition b state).1 ≠ .outside ∧ (d.transition b state).2 ≠ .endRow := by
  have hstart : (d.atFieldStart b).1 ≠ .outside ∧ (d.atFieldStart b).2 ≠ .endRow := by
    unfold Dialect.atFieldStart
    rw [hb]
    split
    · exact ⟨nofun, nofun⟩
    split
    · exact ⟨nofun, nofun⟩
    · exact ⟨nofun, nofun⟩
  have hbare : (d.transition b .bare).1 ≠ .outside ∧ (d.transition b .bare).2 ≠ .endRow := by
    rw [Dialect.transition, hb]
    split
    · exact ⟨nofun, nofun⟩
    · exact ⟨nofun, nofun⟩
  cases state with
  | outside =>
    rw [Dialect.transition, hb]
    exact hstart
  | fieldStart => exact hstart
  | bare => exact hbare
  | quoted =>
    rw [Dialect.transition]
    split
    · exact ⟨nofun, nofun⟩
    · exact ⟨nofun, nofun⟩
  | quoteSeen =>
    rw [Dialect.transition]
    split
    · exact ⟨nofun, nofun⟩
    · exact hbare

/-- Any other byte belongs to a row. -/
theorem step_solid (d : Dialect) (s : Scanner) {b : UInt8} (hb : isBreak b = false) :
    (s.step d b).state ≠ .outside ∧ (s.step d b).rows = s.rows ∧ (s.step d b).start = s.start := by
  obtain ⟨hstate, heffect⟩ := transition_solid d hb s.state
  unfold step
  split
  · next state h => rw [h] at hstate; exact ⟨hstate, rfl, rfl⟩
  · next state h => rw [h] at hstate; exact ⟨hstate, rfl, rfl⟩
  · next state h => rw [h] at hstate; exact ⟨hstate, rfl, rfl⟩
  · next state h => rw [h] at heffect; exact absurd rfl heffect

/-- A row that a line break would end has not just met one. -/
theorem solid_of_endsRow_step (hd : d.Proper) (s : Scanner) {b : UInt8}
    (h : (s.step d b).state.endsRow = true) : isBreak b = false := by
  cases hb : isBreak b with
  | false => rfl
  | true =>
    exfalso
    cases hs : s.state with
    | outside =>
      rw [step_outside hs hb] at h
      rw [show ({ s with here := advance s.here b } : Scanner).state = s.state from rfl, hs] at h
      exact Bool.false_ne_true h
    | quoted =>
      rw [step_quoted hd hs hb] at h
      rw [show ({ s with here := advance s.here b, field := b :: s.field } : Scanner).state =
        s.state from rfl, hs] at h
      exact Bool.false_ne_true h
    | fieldStart | bare | quoteSeen =>
      rw [step_endsRow hd (by rw [hs]; rfl) hb] at h
      exact Bool.false_ne_true h

/-! ### What many bytes do -/

theorem run_cons (d : Dialect) (s : Scanner) (b : UInt8) (bytes : Bytes) :
    run d s (b :: bytes) = run d (s.step d b) bytes := rfl

theorem run_concat (d : Dialect) (s : Scanner) (bytes : Bytes) (b : UInt8) :
    run d s (bytes ++ [b]) = (run d s bytes).step d b := by
  rw [run_append]
  rfl

theorem run_here_byte (d : Dialect) (s : Scanner) (bytes : Bytes) :
    (run d s bytes).here.byte = s.here.byte + bytes.length := by
  induction bytes generalizing s with
  | nil => rfl
  | cons b bytes ih =>
    rw [run_cons, ih, step_here, List.length_cons]
    show s.here.byte + 1 + bytes.length = _
    omega

theorem solidEnd_of_endsRow (hd : d.Proper) {s : Scanner} (hs : s.state.endsRow = false)
    {bytes : Bytes} (h : (run d s bytes).state.endsRow = true) : bytes ≠ [] ∧ SolidEnd bytes := by
  rcases List.eq_nil_or_concat bytes with rfl | ⟨front, b, rfl⟩
  · rw [show run d s [] = s from rfl, hs] at h
    exact absurd h Bool.false_ne_true
  · rw [List.concat_eq_append] at h ⊢
    rw [run_concat] at h
    refine ⟨by simp, ?_⟩
    intro a ha
    rw [List.getLast?_concat, Option.some.injEq] at ha
    exact ha ▸ solid_of_endsRow_step hd _ h

/-! ### Lines met -/

theorem lineAt_solid (s : Scanner) (last : UInt8) {b : UInt8} (hb : isBreak b = false) :
    s.lineAt last b = none := by
  rw [lineAt, hb]
  rfl

theorem lineAt_outside {s : Scanner} (hs : s.state = .outside) (last : UInt8) {b : UInt8}
    (hb : isBreak b = true) :
    s.lineAt last b = if last = carriageReturn ∧ b = lineFeed then none else some .blank := by
  rw [lineAt, if_pos hb, hs]

theorem lineAt_quoted {s : Scanner} (hs : s.state = .quoted) (last b : UInt8) :
    s.lineAt last b = none := by
  rw [lineAt, hs]
  split <;> rfl

theorem lineAt_endsRow {s : Scanner} (hs : s.state.endsRow = true) (last : UInt8) {b : UInt8}
    (hb : isBreak b = true) : s.lineAt last b = some (.row (s.current (advance s.here b))) := by
  rw [lineAt, if_pos hb]
  cases hstate : s.state with
  | outside => rw [hstate] at hs; exact absurd hs Bool.false_ne_true
  | quoted => rw [hstate] at hs; exact absurd hs Bool.false_ne_true
  | fieldStart => rfl
  | bare => rfl
  | quoteSeen => rfl

theorem eq_of_lineAt_row {s : Scanner} {last b : UInt8} {r : Row}
    (h : s.lineAt last b = some (.row r)) :
    isBreak b = true ∧ s.state.endsRow = true ∧ r = s.current (advance s.here b) := by
  unfold lineAt at h
  split at h
  · next hb =>
    cases hs : s.state with
    | outside => rw [hs] at h; simp at h
    | quoted => rw [hs] at h; simp at h
    | fieldStart | bare | quoteSeen =>
      rw [hs] at h
      injection h with h
      injection h with h
      exact ⟨hb, rfl, h.symm⟩
  · simp at h

theorem openRow_outside {s : Scanner} (hs : s.state = .outside) : s.openRow = [] := by
  rw [openRow, hs]

theorem openRow_of_ne {s : Scanner} (hs : s.state ≠ .outside) :
    s.openRow = [.row (s.current s.here)] := by
  unfold openRow
  split
  · next h => exact absurd h hs
  · rfl

theorem lines_nil (d : Dialect) (s : Scanner) (last : UInt8) : s.lines d last [] = s.openRow := rfl

theorem lines_cons (d : Dialect) (s : Scanner) (last b : UInt8) (bytes : Bytes) :
    s.lines d last (b :: bytes) = (s.lineAt last b).toList ++ (s.step d b).lines d b bytes := by
  rw [lines, completed, List.append_assoc, run_cons, lines]

theorem completed_append (d : Dialect) (s : Scanner) (last : UInt8) (a b : Bytes) :
    s.completed d last (a ++ b) =
      s.completed d last a ++ (run d s a).completed d (a.getLastD last) b := by
  induction a generalizing s last with
  | nil => rfl
  | cons x a ih =>
    rw [List.cons_append, completed, completed, ih, List.append_assoc, run_cons,
      List.getLastD_cons]

theorem lines_append (d : Dialect) (s : Scanner) (last : UInt8) (a b : Bytes) :
    s.lines d last (a ++ b) =
      s.completed d last a ++ (run d s a).lines d (a.getLastD last) b := by
  rw [lines, completed_append, List.append_assoc, run_append, lines]

/-- In a row the next line is the row. -/
theorem exists_row_lines (hd : d.Proper) {s : Scanner} (hs : s.state ≠ .outside) (last : UInt8)
    (bytes : Bytes) : ∃ row back, s.lines d last bytes = .row row :: back := by
  induction bytes generalizing s last with
  | nil => exact ⟨_, _, by rw [lines_nil, openRow_of_ne hs]⟩
  | cons b bytes ih =>
    rw [lines_cons]
    cases hb : isBreak b with
    | false =>
      rw [lineAt_solid s last hb]
      exact ih (step_solid d s hb).1 b
    | true =>
      cases hstate : s.state with
      | outside => exact absurd hstate hs
      | quoted =>
        rw [lineAt_quoted hstate]
        refine ih ?_ b
        rw [step_quoted hd hstate hb]
        exact hs
      | fieldStart | bare | quoteSeen =>
        rw [lineAt_endsRow (by rw [hstate]; rfl) last hb]
        exact ⟨_, _, rfl⟩

theorem leadingBlanks_lines_of_ne (hd : d.Proper) {s : Scanner} (hs : s.state ≠ .outside)
    (last : UInt8) (bytes : Bytes) : leadingBlanks (s.lines d last bytes) = 0 := by
  obtain ⟨row, back, h⟩ := exists_row_lines hd hs last bytes
  rw [h]
  rfl

/-- **Where no row has begun, the blank lines met next are the breaks that come next**, counted
together with the break before them, which is not theirs. -/
theorem leadingBlanks_lines (hd : d.Proper) {s : Scanner} (hs : s.state = .outside)
    (last : UInt8) (bytes : Bytes) :
    leadingBlanks (s.lines d last bytes) + 1 = countBreaks (last :: bytes.takeWhile isBreak) := by
  induction bytes generalizing s last with
  | nil => rw [lines_nil, openRow_outside hs]; rfl
  | cons b bytes ih =>
    rw [lines_cons, List.takeWhile_cons]
    cases hb : isBreak b with
    | false =>
      rw [lineAt_solid s last hb]
      show leadingBlanks ((s.step d b).lines d b bytes) + 1 = 1
      rw [leadingBlanks_lines_of_ne hd (step_solid d s hb).1]
    | true =>
      have hrest := ih (s := s.step d b) (by rw [step_outside hs hb]; exact hs) b
      rw [lineAt_outside hs last hb, if_pos rfl, countBreaks_cons_cons, ← hrest]
      split
      · show leadingBlanks ((s.step d b).lines d b bytes) + 1 = _
        omega
      · show leadingBlanks ((s.step d b).lines d b bytes) + 1 + 1 = _
        omega

/-- The rows among the lines are the rows that the scanner finds. -/
theorem rows_lines (hd : d.Proper) (s : Scanner) (last : UInt8) (bytes : Bytes) :
    (run d s bytes).finish = s.rows.reverse ++ (s.lines d last bytes).filterMap Line.row? := by
  induction bytes generalizing s last with
  | nil =>
    rw [lines_nil, show run d s [] = s from rfl]
    unfold finish
    split
    · next h => rw [openRow_outside h, List.filterMap_nil, List.append_nil]
    · next h =>
      rw [openRow_of_ne h, endRow, List.reverse_cons]
      rfl
  | cons b bytes ih =>
    rw [lines_cons, run_cons, ih _ b, List.filterMap_append, ← List.append_assoc]
    congr 1
    cases hb : isBreak b with
    | false => rw [lineAt_solid s last hb, (step_solid d s hb).2.1]; simp
    | true =>
      cases hstate : s.state with
      | outside => 
        rw [lineAt_outside hstate last hb, step_outside hstate hb]
        split <;> simp [Line.row?]
      | quoted =>
        rw [lineAt_quoted hstate, step_quoted hd hstate hb]
        simp
      | fieldStart | bare | quoteSeen =>
        rw [lineAt_endsRow (by rw [hstate]; rfl) last hb, step_endsRow hd (by rw [hstate]; rfl) hb]
        simp [Line.row?, endRow, current]

/-! ### Where a row ends -/

/-- **The bytes split at the end of a row.**  Where a row stands among the lines, either one of the
bytes ends it, and the lines before it come from the bytes before and the lines after it from the
bytes after, or it is the last line and the end of input ends it. -/
theorem lines_eq_append_row (hd : d.Proper) {s : Scanner} {last : UInt8} {bytes : Bytes}
    {front back : List Line} {r : Row}
    (h : s.lines d last bytes = front ++ .row r :: back) :
    (∃ a b t, bytes = a ++ t :: b ∧ isBreak t = true ∧ (run d s a).state.endsRow = true ∧
      front = s.completed d last a ∧ r = (run d s a).current (advance (run d s a).here t) ∧
      back = ((run d s a).endRow r.stop).lines d t b) ∨
    ((run d s bytes).state ≠ .outside ∧ front = s.completed d last bytes ∧
      r = (run d s bytes).current (run d s bytes).here ∧ back = []) := by
  induction bytes generalizing s last front with
  | nil =>
    right
    rw [lines_nil] at h
    by_cases hs : s.state = .outside
    · rw [openRow_outside hs] at h
      simp at h
    · rw [openRow_of_ne hs] at h
      obtain ⟨rfl, hr, rfl⟩ : front = [] ∧ Line.row (s.current s.here) = .row r ∧ back = [] := by
        cases front with
        | nil => simpa [eq_comm] using h
        | cons l front => simp at h
      injection hr with hr
      exact ⟨hs, rfl, hr.symm, rfl⟩
  | cons b bytes ih =>
    rw [lines_cons] at h
    have hfront : (s.lineAt last b = some (.row r) ∧ front = [] ∧
          back = (s.step d b).lines d b bytes) ∨
        ∃ front', front = (s.lineAt last b).toList ++ front' ∧
          (s.step d b).lines d b bytes = front' ++ .row r :: back := by
      cases hl : s.lineAt last b with
      | none => rw [hl] at h; exact Or.inr ⟨front, rfl, h⟩
      | some l =>
        rw [hl] at h
        cases front with
        | nil =>
          obtain ⟨rfl, hback⟩ := List.cons.inj h
          exact Or.inl ⟨rfl, rfl, hback.symm⟩
        | cons l' front' =>
          obtain ⟨rfl, hrest⟩ := List.cons.inj h
          exact Or.inr ⟨front', rfl, hrest⟩
    rcases hfront with ⟨hl, rfl, rfl⟩ | ⟨front', rfl, hrest⟩
    · obtain ⟨hb, hs, hr⟩ := eq_of_lineAt_row hl
      refine Or.inl ⟨[], bytes, b, rfl, hb, hs, rfl, hr, ?_⟩
      rw [step_endsRow hd hs hb, hr]
      rfl
    · rcases ih hrest with ⟨a, rest, t, rfl, ht, hs, rfl, hr, hback⟩ | ⟨hs, rfl, hr, rfl⟩
      · exact Or.inl ⟨b :: a, rest, t, rfl, ht, hs, rfl, hr, hback⟩
      · exact Or.inr ⟨hs, rfl, hr, rfl⟩

end Scanner

end Rowcast.Csv
