import Rowcast.Proofs.Csv.Reading

/-!
# What a reading gives

A reading either gets through all lines or stops at the first row that is not UTF-8.  Blank lines
are `pending` until the next row has been read, so the lines before a bad row split into a `Settled`
part, which ends with a row, and blank lines whose records are never added.

* `readLines_settled`: settled lines add their records and leave nothing pending.
* `readWatched_ok`, `readWatched_fault`: what is shown and what is returned in the two cases.
* `course`: every input takes one of four courses, by whether it has a header and by the first row
  that is not UTF-8.  Statements about all inputs are proved course by course.
-/

namespace Rowcast.Csv

/-! ### Settled lines -/

/-- The lines do not end with a blank line. -/
def Settled (lines : List Line) : Prop := lines = [] ∨ ∃ front row, lines = front ++ [.row row]

def AllReadable (lines : List Line) : Prop := ∀ row, Line.row row ∈ lines → row.Readable

theorem exists_settled (lines : List Line) :
    ∃ front k, lines = front ++ List.replicate k .blank ∧ Settled front := by
  induction lines with
  | nil => exact ⟨[], 0, rfl, Or.inl rfl⟩
  | cons l lines ih =>
    obtain ⟨front, k, rfl, rfl | ⟨front', row, rfl⟩⟩ := ih
    · cases l with
      | blank => exact ⟨[], k + 1, rfl, Or.inl rfl⟩
      | row row => exact ⟨[.row row], k, rfl, Or.inr ⟨[], row, rfl⟩⟩
    · exact ⟨l :: (front' ++ [.row row]), k, rfl, Or.inr ⟨l :: front', row, rfl⟩⟩

namespace AllReadable

variable {front back : List Line}

theorem left (h : AllReadable (front ++ back)) : AllReadable front :=
  fun row hrow => h row (List.mem_append_left back hrow)

theorem right (h : AllReadable (front ++ back)) : AllReadable back :=
  fun row hrow => h row (List.mem_append_right front hrow)

theorem append (hfront : AllReadable front) (hback : AllReadable back) :
    AllReadable (front ++ back) := by
  intro row hrow
  rcases List.mem_append.mp hrow with hrow | hrow
  · exact hfront row hrow
  · exact hback row hrow

theorem blanks (n : Nat) : AllReadable (List.replicate n .blank) :=
  fun row hrow => absurd hrow (row_not_mem_blanks n row)

theorem row {row : Row} (h : row.Readable) : AllReadable [.row row] := by
  intro r hr
  rw [List.mem_singleton, Line.row.injEq] at hr
  exact hr ▸ h

end AllReadable

/-- Lines of which some row is not UTF-8 split at the first such row. -/
theorem exists_first_bad {lines : List Line} (h : ¬ AllReadable lines) :
    ∃ front bad back, lines = front ++ .row bad :: back ∧ AllReadable front ∧ ¬ bad.Readable := by
  induction lines with
  | nil => exact absurd (AllReadable.blanks 0) h
  | cons l lines ih =>
    by_cases hl : AllReadable [l]
    · have hlines : ¬ AllReadable lines := fun hlines => h (hl.append hlines)
      obtain ⟨front, bad, back, rfl, hfront, hbad⟩ := ih hlines
      exact ⟨l :: front, bad, back, rfl, hl.append hfront, hbad⟩
    · cases l with
      | blank => exact absurd (AllReadable.blanks 1) hl
      | row bad => exact ⟨[], bad, lines, rfl, .blanks 0, fun hbad => hl (.row hbad)⟩

section Session

variable {σ : Type} (s : Session σ)

theorem readLines_blanks (number pending k : Nat) (p : Progress σ) (lines : List Line) :
    s.readLines number pending p (List.replicate k .blank ++ lines) =
      s.readLines number (pending + k) p lines := by
  induction k generalizing pending with
  | zero => rfl
  | succ k ih =>
    show s.readLines number (pending + 1) p (List.replicate k .blank ++ lines) = _
    rw [ih, Nat.add_right_comm]
    rfl

/-- Lines up to a row add the records of the pending blank lines and their own. -/
theorem readLines_row (number pending : Nat) (p : Progress σ) {front : List Line} {row : Row}
    (h : AllReadable (front ++ [.row row])) (lines : List Line) :
    s.readLines number pending p (front ++ .row row :: lines) =
      s.readLines (number + (front.filterMap Line.row?).length + 1) 0
        (p.pushList s.watch (s.options.records s.names
          (List.replicate pending .blank ++ front ++ [.row row]))) lines := by
  induction front generalizing number pending p with
  | nil =>
    rw [List.nil_append, Session.readLines,
      s.options.cells_of_readable (h row (List.mem_append_right [] List.mem_cons_self))]
    show s.readLines (number + 1) 0 _ lines = s.readLines (number + 1) 0 _ lines
    rw [List.append_nil, Options.records_append, Progress.pushList_append, Options.records_row]
    rfl
  | cons l front ih =>
    have hrest : AllReadable (front ++ [.row row]) := fun r hr => h r (List.mem_cons_of_mem l hr)
    cases l with
    | blank =>
      show s.readLines number (pending + 1) p (front ++ .row row :: lines) = _
      rw [ih _ _ _ hrest, List.replicate_succ', List.append_assoc (List.replicate pending _)]
      rfl
    | row r =>
      have hr : r.Readable := h r List.mem_cons_self
      have hnumber : number + 1 + (front.filterMap Line.row?).length + 1 =
          number + ((Line.row r :: front).filterMap Line.row?).length + 1 := by
        show _ = number + ((front.filterMap Line.row?).length + 1) + 1
        omega
      have hrecords : s.options.records s.names
            (List.replicate pending .blank ++ .row r :: front ++ [.row row]) =
          s.options.records s.names (List.replicate pending .blank) ++
            (s.options.recordOf s.names (s.options.texts r) ::
              s.options.records s.names (front ++ [.row row])) := by
        rw [List.append_assoc, Options.records_append,
          show (Line.row r :: front ++ [Line.row row]) = [Line.row r] ++ (front ++ [Line.row row])
            from rfl, Options.records_append, Options.records_row]
        rfl
      rw [List.cons_append, Session.readLines, s.options.cells_of_readable hr]
      show s.readLines (number + 1) 0 _ (front ++ .row row :: lines) = _
      rw [ih _ _ _ hrest, hnumber, hrecords, Progress.pushList_append]
      rfl

/-- **Settled lines add their records and leave nothing pending.** -/
theorem readLines_settled (number : Nat) (p : Progress σ) {front : List Line}
    (hfront : Settled front) (h : AllReadable front) (lines : List Line) :
    s.readLines number 0 p (front ++ lines) =
      s.readLines (number + (front.filterMap Line.row?).length) 0
        (p.pushList s.watch (s.options.records s.names front)) lines := by
  rcases hfront with rfl | ⟨front, row, rfl⟩
  · rw [Options.records_nil]
    rfl
  · rw [List.append_assoc, List.singleton_append, readLines_row s number 0 p h,
      List.filterMap_append, List.length_append]
    rfl

theorem readLines_ok (number : Nat) (p : Progress σ) {lines : List Line} (h : AllReadable lines) :
    s.readLines number 0 p lines =
      (p.pushList s.watch (s.options.records s.names lines), none) := by
  obtain ⟨front, k, rfl, hfront⟩ := exists_settled lines
  rw [readLines_settled s number p hfront h.left]
  have hblanks := readLines_blanks s (number + (front.filterMap Line.row?).length) 0 k
    (p.pushList s.watch (s.options.records s.names front)) []
  rw [List.append_nil] at hblanks
  rw [hblanks, Session.readLines, Options.records_append, Progress.pushList_append, Nat.zero_add]

theorem readLines_fault (number : Nat) (p : Progress σ) {front : List Line}
    (hfront : Settled front) (h : AllReadable front) {bad : Row} {fault : Fault}
    (hbad : s.options.cells bad (number + (front.filterMap Line.row?).length) = .error fault)
    (k : Nat) (back : List Line) :
    s.readLines number 0 p (front ++ (List.replicate k .blank ++ .row bad :: back)) =
      (p.pushList s.watch (s.options.records s.names front), some fault) := by
  rw [readLines_settled s number p hfront h, readLines_blanks, Session.readLines, hbad]

end Session

/-! ### Whole readings -/

section Reading

variable {o : Options} {bytes : Bytes} {k : Nat} {header : Row} {σ : Type}

/-- **An input without a bad row.**  Each line that counts is a record, and each record is shown. -/
theorem readWatched_ok (hd : o.dialect.Proper) {body : List Line}
    (h : linesCounted o.dialect bytes = List.replicate k .blank ++ .row header :: body)
    (hheader : header.Readable) (hbody : AllReadable body)
    (watch : σ → Nat → RawRecord → σ) (watched : σ) :
    readWatched watch watched o bytes =
      (showAll watch watched 1 (o.records (o.namesOf header) body),
        .ok (o.records (o.namesOf header) body)) := by
  rw [readWatched_of_names_ok hd h (o.names_of_readable hheader), readLines_ok _ _ _ hbody]
  show (Progress.watched _, Except.ok (Progress.records _).toList) = _
  rw [Progress.watched_pushList, Progress.records_pushList]
  rfl

/-- **An input with a bad row.**  The lines before it are shown, up to the last row. -/
theorem readWatched_fault (hd : o.dialect.Proper) {front back : List Line} {j : Nat} {bad : Row}
    (h : linesCounted o.dialect bytes = List.replicate k .blank ++
      .row header :: (front ++ (List.replicate j .blank ++ .row bad :: back)))
    (hheader : header.Readable) (hfront : Settled front) (hread : AllReadable front)
    {fault : Fault}
    (hbad : o.cells bad (1 + (front.filterMap Line.row?).length) = .error fault)
    (watch : σ → Nat → RawRecord → σ) (watched : σ) :
    readWatched watch watched o bytes =
      (showAll watch watched 1 (o.records (o.namesOf header) front), .error fault) := by
  rw [readWatched_of_names_ok hd h (o.names_of_readable hheader),
    readLines_fault _ _ _ hfront hread hbad]
  show (Progress.watched _, Except.error fault) = _
  rw [Progress.watched_pushList]
  rfl

end Reading

/-! ### The four courses -/

/-- The course that the reading of an input takes. -/
inductive Course (d : Dialect) (bytes : Bytes) : Prop
  | noRow (h : (linesCounted d bytes).filterMap Line.row? = [])
  | badHeader {k : Nat} {header : Row} {body : List Line}
      (h : linesCounted d bytes = List.replicate k .blank ++ .row header :: body)
      (hheader : ¬ header.Readable)
  | noBadRow {k : Nat} {header : Row} {body : List Line}
      (h : linesCounted d bytes = List.replicate k .blank ++ .row header :: body)
      (hheader : header.Readable) (hbody : AllReadable body)
  | badRow {k j : Nat} {header bad : Row} {front back : List Line}
      (h : linesCounted d bytes = List.replicate k .blank ++
        .row header :: (front ++ (List.replicate j .blank ++ .row bad :: back)))
      (hheader : header.Readable) (hfront : Settled front) (hread : AllReadable front)
      (hbad : ¬ bad.Readable)

theorem course (d : Dialect) (bytes : Bytes) : Course d bytes := by
  rcases linesCounted_cases d bytes with h | ⟨k, header, body, h⟩
  · exact .noRow h
  by_cases hheader : header.Readable
  · by_cases hbody : AllReadable body
    · exact .noBadRow h hheader hbody
    · obtain ⟨lines, bad, back, rfl, hlines, hbad⟩ := exists_first_bad hbody
      obtain ⟨front, j, rfl, hfront⟩ := exists_settled lines
      rw [List.append_assoc] at h
      exact .badRow h hheader hfront hlines.left hbad
  · exact .badHeader h hheader

theorem exists_names_error (o : Options) {header : Row} (h : ¬ header.Readable) :
    ∃ fault, o.names header = .error fault := by
  cases hnames : o.names header with
  | ok names => exact absurd (Options.readable_of_names hnames) h
  | error fault => exact ⟨fault, rfl⟩

theorem exists_cells_error (o : Options) {row : Row} (h : ¬ row.Readable) (number : Nat) :
    ∃ fault, o.cells row number = .error fault := by
  cases hcells : o.cells row number with
  | ok texts => exact absurd (Options.readable_of_cells hcells) h
  | error fault => exact ⟨fault, rfl⟩

theorem read_of_readWatched {o : Options} {bytes : Bytes} {result : Except Fault (List RawRecord)}
    (h : readWatched (fun _ _ _ => ()) () o bytes = ((), result)) : read o bytes = result := by
  rw [read, h]

/-- The names of the columns: those in the header, and none where there is no row. -/
def columnNames (o : Options) (bytes : Bytes) : Except Fault (List String) :=
  match scan o.dialect bytes with
  | [] => .ok []
  | header :: _ => o.names header

section Result

variable {o : Options} {bytes : Bytes} {k : Nat} {header : Row} {body : List Line}

theorem columnNames_of_no_row (hd : o.dialect.Proper)
    (h : (linesCounted o.dialect bytes).filterMap Line.row? = []) :
    columnNames o bytes = .ok [] := by
  unfold columnNames
  rw [scan_eq_rows_counted hd, h]

theorem columnNames_of_header (hd : o.dialect.Proper)
    (h : linesCounted o.dialect bytes = List.replicate k .blank ++ .row header :: body) :
    columnNames o bytes = o.names header := by
  unfold columnNames
  rw [scan_of_linesCounted hd h]

theorem read_of_no_row (hd : o.dialect.Proper)
    (h : (linesCounted o.dialect bytes).filterMap Line.row? = []) : read o bytes = .ok [] :=
  read_of_readWatched (readWatched_of_no_row hd h _ _)

theorem read_of_names_error (hd : o.dialect.Proper)
    (h : linesCounted o.dialect bytes = List.replicate k .blank ++ .row header :: body)
    {fault : Fault} (hnames : o.names header = .error fault) : read o bytes = .error fault :=
  read_of_readWatched (readWatched_of_names_error hd h hnames _ _)

theorem read_of_readable (hd : o.dialect.Proper)
    (h : linesCounted o.dialect bytes = List.replicate k .blank ++ .row header :: body)
    (hheader : header.Readable) (hbody : AllReadable body) :
    read o bytes = .ok (o.records (o.namesOf header) body) :=
  read_of_readWatched (readWatched_ok hd h hheader hbody _ _)

theorem read_of_cells_error (hd : o.dialect.Proper) {front back : List Line} {j : Nat} {bad : Row}
    (h : linesCounted o.dialect bytes = List.replicate k .blank ++
      .row header :: (front ++ (List.replicate j .blank ++ .row bad :: back)))
    (hheader : header.Readable) (hfront : Settled front) (hread : AllReadable front)
    {fault : Fault}
    (hbad : o.cells bad (1 + (front.filterMap Line.row?).length) = .error fault) :
    read o bytes = .error fault :=
  read_of_readWatched (readWatched_fault hd h hheader hfront hread hbad _ _)

/-- **What it takes to read an input with a header.** -/
theorem read_eq_ok_iff (hd : o.dialect.Proper)
    (h : linesCounted o.dialect bytes = List.replicate k .blank ++ .row header :: body)
    (records : List RawRecord) :
    read o bytes = .ok records ↔
      header.Readable ∧ AllReadable body ∧ o.records (o.namesOf header) body = records := by
  by_cases hheader : header.Readable
  · by_cases hbody : AllReadable body
    · rw [read_of_readable hd h hheader hbody, Except.ok.injEq]
      exact ⟨fun heq => ⟨hheader, hbody, heq⟩, fun hread => hread.2.2⟩
    · refine iff_of_false ?_ fun hread => hbody hread.2.1
      obtain ⟨lines, bad, back, rfl, hlines, hbad⟩ := exists_first_bad hbody
      obtain ⟨front, j, rfl, hfront⟩ := exists_settled lines
      obtain ⟨fault, hcells⟩ := exists_cells_error o hbad _
      rw [List.append_assoc] at h
      rw [read_of_cells_error hd h hheader hfront hlines.left hcells]
      exact nofun
  · refine iff_of_false ?_ fun hread => hheader hread.1
    obtain ⟨fault, hnames⟩ := exists_names_error o hheader
    rw [read_of_names_error hd h hnames]
    exact nofun

/-- A reading that has failed is not changed by what comes after. -/
theorem read_eq_error_append (hd : o.dialect.Proper) {bytes' : Bytes} {more : List Line}
    (h : linesCounted o.dialect bytes' = linesCounted o.dialect bytes ++ more) {fault : Fault}
    (hread : read o bytes = .error fault) : read o bytes' = .error fault := by
  cases course o.dialect bytes with
  | noRow hlines =>
    rw [read_of_no_row hd hlines] at hread
    exact absurd hread nofun
  | badHeader hlines hheader =>
    obtain ⟨fault', hnames⟩ := exists_names_error o hheader
    rw [read_of_names_error hd hlines hnames] at hread
    injection hread with hread
    subst hread
    rw [hlines, List.append_assoc, List.cons_append] at h
    exact read_of_names_error hd h hnames
  | noBadRow hlines hheader hbody =>
    rw [read_of_readable hd hlines hheader hbody] at hread
    exact absurd hread nofun
  | badRow hlines hheader hfront hgood hbad =>
    obtain ⟨fault', hcells⟩ := exists_cells_error o hbad _
    rw [read_of_cells_error hd hlines hheader hfront hgood hcells] at hread
    injection hread with hread
    subst hread
    rw [hlines, List.append_assoc, List.cons_append, List.append_assoc, List.append_assoc,
      List.cons_append] at h
    exact read_of_cells_error hd h hheader hfront hgood hcells

end Result

end Rowcast.Csv
