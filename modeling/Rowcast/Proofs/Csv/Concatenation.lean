import Mathlib
import Rowcast.Proofs.Csv.Outcome

/-!
# Reading concatenated inputs

A header line followed by rows can be read piece by piece: with `h` the header line, the records of
`h ++ a ++ b` are those of `h ++ a` and then those of `h ++ b`, provided that `h` and `h ++ a` end
with a line feed outside quotes (`read_append`).  Nothing is asked of `b`, which may stop in the
middle of a row or be no UTF-8.

The reason is that the scanner forgets.  At the end of a line only the place in the input is left in
it, and places do not enter into records: `unplaced` takes them out, and `unplaced_lines` says that
the lines without their places depend on the scanner without its place alone.  So whatever ends a
line, the bytes after it mean the same lines, `continued` (`linesCounted_append`).  Two things are
settled at the end of the whole input and could look back over the cut: the byte order mark, which
no line feed is part of, and the count of line breaks in quotes that are never closed, which stops
at those quotes.
-/

namespace Rowcast.Csv

variable {d : Dialect}

/-! ### Lines without places -/

def Row.unplaced (row : Row) : Row := { row with start := ⟨0, 0⟩, stop := ⟨0, 0⟩ }

def Line.unplaced : Line → Line
  | .row r => .row r.unplaced
  | .blank => .blank

/-- The scanner as if it stood at the front, with the same part of a row read. -/
def Scanner.unplaced (s : Scanner) : Scanner :=
  { s with here := ⟨0, 0⟩, start := ⟨0, 0⟩, rows := [] }

/-- The scanner after the end of a line. -/
def afterLine : Scanner := (Scanner.atOffset 0).unplaced

namespace Scanner

theorem unplaced_step (s : Scanner) (b : UInt8) :
    (s.unplaced.step d b).unplaced = (s.step d b).unplaced := by
  have hstate : s.unplaced.state = s.state := rfl
  unfold step
  rw [hstate]
  split <;> rfl

theorem unplaced_lineAt (s : Scanner) (last b : UInt8) :
    (s.unplaced.lineAt last b).map Line.unplaced = (s.lineAt last b).map Line.unplaced := by
  have hstate : s.unplaced.state = s.state := rfl
  unfold lineAt
  rw [hstate]
  split
  · split
    · rfl
    · rfl
    · rfl
    · rfl
    · rfl
  · rfl

theorem unplaced_openRow (s : Scanner) :
    s.unplaced.openRow.map Line.unplaced = s.openRow.map Line.unplaced := by
  have hstate : s.unplaced.state = s.state := rfl
  unfold openRow
  rw [hstate]
  split <;> rfl

/-- **The lines without their places depend on the scanner without its place.** -/
theorem unplaced_lines (s : Scanner) (last : UInt8) (bytes : Bytes) :
    (s.lines d last bytes).map Line.unplaced =
      (s.unplaced.lines d last bytes).map Line.unplaced := by
  induction bytes generalizing s last with
  | nil => rw [lines_nil, lines_nil, unplaced_openRow]
  | cons b bytes ih =>
    rw [lines_cons, lines_cons, List.map_append, List.map_append, ih (s.step d b),
      ih (s.unplaced.step d b), unplaced_step, ← Option.toList_map, ← Option.toList_map,
      unplaced_lineAt]

theorem unplaced_run (s : Scanner) (bytes : Bytes) :
    (run d s.unplaced bytes).unplaced = (run d s bytes).unplaced := by
  induction bytes generalizing s with
  | nil => rfl
  | cons b bytes ih => rw [run_cons, run_cons, ← ih (s.step d b), ← ih (s.unplaced.step d b),
      unplaced_step]

theorem state_run_unplaced (s : Scanner) (bytes : Bytes) :
    (run d s.unplaced bytes).state = (run d s bytes).state := by
  have h := congrArg Scanner.state (unplaced_run (d := d) s bytes)
  exact h

/-- Where no row has begun nothing is left of the row before. -/
def Fresh (s : Scanner) : Prop := s.state = .outside → s.field = [] ∧ s.fields = []

theorem fresh_step (hd : d.Proper) {s : Scanner} (h : s.Fresh) (b : UInt8) : (s.step d b).Fresh := by
  intro hout
  cases hb : isBreak b with
  | false => exact absurd hout (step_solid d s hb).1
  | true =>
    cases hs : s.state with
    | outside => rw [step_outside hs hb]; exact h hs
    | quoted => rw [step_quoted hd hs hb] at hout; exact absurd (hs.symm.trans hout) nofun
    | fieldStart | bare | quoteSeen =>
      rw [step_endsRow hd (by rw [hs]; rfl) hb]
      exact ⟨rfl, rfl⟩

theorem fresh_run (hd : d.Proper) {s : Scanner} (h : s.Fresh) (bytes : Bytes) :
    (run d s bytes).Fresh := by
  induction bytes generalizing s with
  | nil => exact h
  | cons b bytes ih => exact ih (fresh_step hd h b)

theorem unplaced_of_fresh {s : Scanner} (h : s.Fresh) (hs : s.state = .outside) :
    s.unplaced = afterLine := by
  obtain ⟨hfield, hfields⟩ := h hs
  unfold unplaced
  rw [hs, hfield, hfields]
  rfl

/-- A row that is open at the end began with a byte that is no line break. -/
theorem exists_solid_of_run {s : Scanner} (hs : s.state = .outside) {bytes : Bytes}
    (h : (run d s bytes).state ≠ .outside) : ∃ b ∈ bytes, isBreak b = false := by
  induction bytes generalizing s with
  | nil => exact absurd hs h
  | cons b bytes ih =>
    cases hb : isBreak b with
    | false => exact ⟨b, List.mem_cons_self, hb⟩
    | true =>
      obtain ⟨c, hc, hsolid⟩ := ih (s := s.step d b) (by rw [step_outside hs hb]; exact hs) h
      exact ⟨c, List.mem_cons_of_mem b hc, hsolid⟩

end Scanner

/-- The breaks at the end lie after any byte that is none. -/
theorem breaksAtEnd_append_of_solid (front : Bytes) {bytes : Bytes}
    (h : ∃ b ∈ bytes, isBreak b = false) : breaksAtEnd (front ++ bytes) = breaksAtEnd bytes := by
  obtain ⟨b, hb, hsolid⟩ := h
  have hnot : (bytes.reverse.takeWhile isBreak).length ≠ bytes.reverse.length := by
    intro hlen
    have hall := (List.takeWhile_prefix isBreak (l := bytes.reverse)).eq_of_length hlen
    have hmem : b ∈ bytes.reverse.takeWhile isBreak := by
      rw [hall]
      exact List.mem_reverse.mpr hb
    have := List.all_eq_true.mp List.all_takeWhile b hmem
    rw [hsolid] at this
    exact Bool.false_ne_true this
  rw [breaksAtEnd, breaksAtEnd, List.reverse_append, List.takeWhile_append, if_neg hnot]

/-! ### What comes after a line -/

/-- The last byte is a line feed outside quotes. -/
structure EndsLine (d : Dialect) (bytes : Bytes) : Prop where
  last : bytes.getLast? = some lineFeed
  outside : ¬ EndsQuoted d bytes

/-- Blank lines, if any, and then the header with its line break. -/
structure HeaderLine (d : Dialect) (bytes : Bytes) : Prop extends EndsLine d bytes where
  single : ∃ k header, lines d bytes = List.replicate k .blank ++ [.row header]

/-- The lines that bytes are after the end of a line, and what is taken for blank lines. -/
def continued (d : Dialect) (bytes : Bytes) : List Line :=
  (afterLine.lines d lineFeed bytes).map Line.unplaced ++
    List.replicate
      (if (Scanner.run d afterLine bytes).state = .quoted then countBreaks (breaksAtEnd bytes) - 1
        else 0)
      .blank

theorem getLast?_drop_mark {bytes : Bytes} (h : bytes.getLast? = some lineFeed) :
    (bytes.drop (markLength bytes)).getLast? = some lineFeed := by
  rw [List.getLast?_drop, if_neg, h]
  intro hle
  unfold markLength at hle
  split at hle
  · next hmark =>
    have hall := (List.isPrefixOf_iff_prefix.mp hmark).eq_of_length_le hle
    rw [← hall] at h
    exact absurd h (by decide)
  · have hnil : bytes = [] := List.length_eq_zero_iff.mp (Nat.le_zero.mp hle)
    rw [hnil] at h
    exact absurd h nofun

namespace EndsLine

variable {bytes : Bytes}

theorem state_atEnd (hd : d.Proper) (h : EndsLine d bytes) : (atEnd d bytes).state = .outside := by
  obtain ⟨front, hfront⟩ := List.getLast?_eq_some_iff.mp (getLast?_drop_mark h.last)
  have hend : atEnd d bytes = (Scanner.run d (atFront bytes) front).step d lineFeed := by
    rw [atEnd, hfront, Scanner.run_concat]
  have hfeed : isBreak lineFeed = true := rfl
  rw [hend]
  cases hs : (Scanner.run d (atFront bytes) front).state with
  | outside => rw [Scanner.step_outside hs hfeed]; exact hs
  | quoted =>
    refine absurd ?_ h.outside
    rw [EndsQuoted, hend, Scanner.step_quoted hd hs hfeed]
    exact hs
  | fieldStart | bare | quoteSeen =>
    rw [Scanner.step_endsRow hd (by rw [hs]; rfl) hfeed]
    rfl

theorem unplaced_atEnd (hd : d.Proper) (h : EndsLine d bytes) :
    (atEnd d bytes).unplaced = afterLine :=
  Scanner.unplaced_of_fresh (Scanner.fresh_run hd (fun _ => ⟨rfl, rfl⟩) _) (h.state_atEnd hd)

end EndsLine

/-- **After the end of a line bytes mean the same lines, whatever stands before.** -/
theorem linesCounted_append (hd : d.Proper) {front : Bytes} (h : EndsLine d front) (back : Bytes) :
    ∃ more, linesCounted d (front ++ back) = lines d front ++ more ∧
      more.map Line.unplaced = continued d back := by
  obtain ⟨hlines, hend⟩ := lines_append_of_outside
    ⟨lineFeed, List.mem_of_getLast? h.last, rfl⟩ (h.state_atEnd hd) back
  have hlast : (front.drop (markLength front)).getLastD 0 = lineFeed := by
    rw [List.getLastD_eq_getLast?, getLast?_drop_mark h.last]
    rfl
  rw [hlast] at hlines
  have hstate : (Scanner.run d afterLine back).state = (atEnd d (front ++ back)).state := by
    rw [← h.unplaced_atEnd hd, Scanner.state_run_unplaced, hend]
  refine ⟨_, by rw [linesCounted, hlines, List.append_assoc], ?_⟩
  rw [List.map_append, Scanner.unplaced_lines, h.unplaced_atEnd hd, continued, List.map_replicate]
  congr 2
  by_cases hq : EndsQuoted d (front ++ back)
  · have hquoted := hstate.trans hq
    have hsolid := Scanner.exists_solid_of_run (s := afterLine) rfl
      fun hout => State.noConfusion (hquoted.symm.trans hout)
    rw [overcount, if_pos hq, if_pos hquoted, breaksAtEnd_append_of_solid front hsolid]
  · rw [overcount, if_neg hq, if_neg fun hquoted => hq (hstate.symm.trans hquoted)]

/-! ### Reading what comes after a line -/

theorem allReadable_unplaced (lines : List Line) :
    AllReadable (lines.map Line.unplaced) ↔ AllReadable lines := by
  constructor
  · intro h row hrow
    exact h row.unplaced (List.mem_map_of_mem hrow)
  · intro h row hrow
    obtain ⟨l, hl, hunplaced⟩ := List.mem_map.mp hrow
    cases l with
    | blank => exact absurd hunplaced nofun
    | row r =>
      injection hunplaced with hunplaced
      rw [← hunplaced]
      exact h r hl

theorem records_unplaced (o : Options) (names : List String) (lines : List Line) :
    o.records names (lines.map Line.unplaced) = o.records names lines := by
  induction lines with
  | nil => rfl
  | cons l lines ih =>
    have hl : o.records names [l.unplaced] = o.records names [l] := by
      cases l with
      | blank => rfl
      | row r => rw [Line.unplaced, Options.records_row, Options.records_row]; rfl
    rw [← List.singleton_append, List.map_append, Options.records_append, Options.records_append,
      ih, List.map_singleton, hl]

variable {o : Options}

/-- **Reading is additive after the header line.**  The whole is read exactly if both parts are, and
gives the records of one and then those of the other; and where the front part fails, the whole
fails in the same way. -/
theorem read_append (hd : o.dialect.Proper) {h a : Bytes} (hh : HeaderLine o.dialect h)
    (ha : EndsLine o.dialect (h ++ a)) (b : Bytes) :
    (∀ records, read o (h ++ a ++ b) = .ok records ↔
      ∃ front back, read o (h ++ a) = .ok front ∧ read o (h ++ b) = .ok back ∧
        records = front ++ back) ∧
    ∀ fault, read o (h ++ a) = .error fault → read o (h ++ a ++ b) = .error fault := by
  obtain ⟨k, header, hheader⟩ := hh.single
  obtain ⟨linesA, hA, -⟩ := linesCounted_append hd hh.toEndsLine a
  obtain ⟨linesB, hB, hmeanB⟩ := linesCounted_append hd hh.toEndsLine b
  obtain ⟨more, hAB, hmean⟩ := linesCounted_append hd ha b
  rw [← linesCounted_of_outside (ha.state_atEnd hd)] at hAB
  refine ⟨fun records => ?_, fun fault => read_eq_error_append hd hAB⟩
  -- The lines after `h ++ a` and those after `h` differ in their places only.
  have hsame : more.map Line.unplaced = linesB.map Line.unplaced := hmean.trans hmeanB.symm
  have hreadable : AllReadable more ↔ AllReadable linesB := by
    rw [← allReadable_unplaced more, hsame, allReadable_unplaced]
  have hrecords : ∀ names, o.records names more = o.records names linesB := by
    intro names
    rw [← records_unplaced o names more, hsame, records_unplaced]
  rw [hheader, List.append_assoc, List.singleton_append] at hA hB
  rw [hA, List.append_assoc (List.replicate k _), List.cons_append] at hAB
  rw [read_eq_ok_iff hd hAB, Options.records_append, hrecords]
  constructor
  · rintro ⟨hgood, hall, rfl⟩
    exact ⟨_, _, (read_eq_ok_iff hd hA _).mpr ⟨hgood, hall.left, rfl⟩,
      (read_eq_ok_iff hd hB _).mpr ⟨hgood, hreadable.mp hall.right, rfl⟩, rfl⟩
  · rintro ⟨front, back, hfront, hback, rfl⟩
    obtain ⟨hgood, hallA, rfl⟩ := (read_eq_ok_iff hd hA _).mp hfront
    obtain ⟨-, hallB, rfl⟩ := (read_eq_ok_iff hd hB _).mp hback
    exact ⟨hgood, hallA.append (hreadable.mpr hallB), rfl⟩

/-- A blank line on each side of the cut, and quotes that are never closed behind it. -/
theorem read_append_between_blank_lines :
    let o : Options := ⟨44, 34, false, false, false⟩
    let h : Bytes := [10, 97, 13, 10]
    let a : Bytes := [34, 49, 10, 34, 10, 10]
    let b : Bytes := [13, 10, 34, 50, 10]
    o.dialect.Proper ∧ HeaderLine o.dialect h ∧ EndsLine o.dialect (h ++ a) ∧
      read o (h ++ a) = .ok [.ofList [("a", some "1\n")], .ofList [("a", some "")]] ∧
      read o (h ++ b) = .ok [.ofList [("a", some "")], .ofList [("a", some "2\n")]] ∧
      read o (h ++ a ++ b) = .ok
        [.ofList [("a", some "1\n")], .ofList [("a", some "")], .ofList [("a", some "")],
          .ofList [("a", some "2\n")]] := by
  intro o h a b
  have hd : o.dialect.Proper := ⟨by decide, by decide, by decide⟩
  have hh : HeaderLine o.dialect h :=
    ⟨⟨rfl, by decide⟩, 1, ⟨[[97]], ⟨1, 0⟩, ⟨2, 3⟩⟩, rfl⟩
  have ha : EndsLine o.dialect (h ++ a) := ⟨rfl, by decide⟩
  have hfront : read o (h ++ a) =
      .ok [.ofList [("a", some "1\n")], .ofList [("a", some "")]] := by cbv
  have hback : read o (h ++ b) =
      .ok [.ofList [("a", some "")], .ofList [("a", some "2\n")]] := by cbv
  exact ⟨hd, hh, ha, hfront, hback,
    ((read_append hd hh ha b).1 _).mpr ⟨_, _, hfront, hback, rfl⟩⟩

end Rowcast.Csv
