import Mathlib
import Rowcast.Proofs.Csv.Outcome

/-!
# Watching a reading

Who watches a reading sees exactly what it returns, also where it fails.  A reading fails exactly
when a row has a field that is not UTF-8 (`read_eq_error_iff`).  Then its fault carries the offset
where the reading of that row began, and the input cut off there is one that reads: it gives the
records that were shown before the failure, no more and no less (`read_take_fault`).

The cut lies right after the first break that ends the row before, so that blank lines before the
bad row and the second half of a `\r\n` are cut off with it, and none of them is missed: their
records would have been added only with the bad row.
-/

namespace Rowcast.Csv

variable {o : Options} {bytes : Bytes}

/-! ### When a reading fails -/

theorem allReadable_iff {lines : List Line} :
    AllReadable lines ↔ ∀ row ∈ lines.filterMap Line.row?, row.Readable := by
  constructor
  · intro h row hrow
    obtain ⟨l, hl, hlrow⟩ := List.mem_filterMap.mp hrow
    cases l with
    | blank => simp [Line.row?] at hlrow
    | row r =>
      injection hlrow with hlrow
      exact hlrow ▸ h r hl
  · intro h row hrow
    exact h row (List.mem_filterMap.mpr ⟨.row row, hrow, rfl⟩)

theorem exists_invalid_field {row : Row} (h : ¬ row.Readable) :
    ∃ field ∈ row.fields, ¬ Utf8.Valid field := by
  rw [Row.Readable] at h
  simpa using h

/-- **A reading fails exactly when some field is not UTF-8.** -/
theorem read_eq_error_iff (hd : o.dialect.Proper) (bytes : Bytes) :
    (∃ fault, read o bytes = .error fault) ↔
      ∃ row ∈ scan o.dialect bytes, ∃ field ∈ row.fields, ¬ Utf8.Valid field := by
  have hscan := scan_eq_rows_counted hd bytes
  cases course o.dialect bytes with
  | noRow hlines =>
    rw [read_of_no_row hd hlines, hscan, hlines]
    simp
  | badHeader hlines hheader =>
    rw [scan_of_linesCounted hd hlines]
    obtain ⟨fault, hnames⟩ := exists_names_error o hheader
    refine iff_of_true ⟨fault, ?_⟩ ⟨_, List.mem_cons_self, exists_invalid_field hheader⟩
    exact read_of_names_error hd hlines hnames
  | noBadRow hlines hheader hbody =>
    rw [scan_of_linesCounted hd hlines,
      read_of_readable hd hlines hheader hbody]
    refine iff_of_false (by simp) ?_
    rintro ⟨row, hrow, field, hfield, hinvalid⟩
    rcases List.mem_cons.mp hrow with rfl | hrow
    · exact hinvalid (hheader field hfield)
    · exact hinvalid (allReadable_iff.mp hbody row hrow field hfield)
  | badRow hlines hheader hfront hread hbad =>
    rw [scan_of_linesCounted hd hlines]
    obtain ⟨fault, hcells⟩ := exists_cells_error o hbad _
    refine iff_of_true ⟨fault, ?_⟩ ⟨_, ?_, exists_invalid_field hbad⟩
    · exact read_of_cells_error hd hlines hheader hfront hread hcells
    · refine List.mem_cons_of_mem _ (List.mem_filterMap.mpr ⟨.row _, ?_, rfl⟩)
      exact List.mem_append_right _ (List.mem_append_right _ List.mem_cons_self)

/-! ### What has been shown when it fails -/

/-- Settled lines after the header end with a row, the header itself if there are none. -/
theorem exists_last_row (k : Nat) (header : Row) {front : List Line} (h : Settled front) :
    ∃ before last, List.replicate k .blank ++ .row header :: front = before ++ [.row last] := by
  rcases h with rfl | ⟨front, row, rfl⟩
  · exact ⟨List.replicate k .blank, header, rfl⟩
  · exact ⟨List.replicate k .blank ++ .row header :: front, row, by rw [List.append_assoc]; rfl⟩

/-- **The input cut off where the reading of a row began** has the lines before that row, down to
the row before it. -/
theorem linesCounted_take_start {d : Dialect} (hd : d.Proper) {k j : Nat} {header row : Row}
    {front back : List Line}
    (h : linesCounted d bytes = List.replicate k .blank ++
      .row header :: (front ++ (List.replicate j .blank ++ .row row :: back)))
    (hfront : Settled front) :
    row.start.byte ≤ bytes.length ∧
      linesCounted d (bytes.take row.start.byte) =
        List.replicate k .blank ++ .row header :: front := by
  obtain ⟨before, last, hlast⟩ := exists_last_row k header hfront
  have hsplit : linesCounted d bytes =
      (before ++ .row last :: List.replicate j .blank) ++ .row row :: back := by
    rw [h, ← List.cons_append, ← List.append_assoc, hlast, ← List.append_assoc,
      List.append_assoc before]
    rfl
  obtain ⟨rest, hrest, -⟩ := lines_of_linesCounted hsplit
  rw [List.append_assoc, List.cons_append] at hrest
  have hstart : row.start = last.stop := start_next hd hrest fun l hl => List.eq_of_mem_replicate hl
  obtain ⟨hle, hcut, hover⟩ := lines_take_stop hd hrest (by simp)
  rw [hstart]
  refine ⟨hle, ?_⟩
  rw [linesCounted, hcut, hover, hlast, List.replicate_zero, List.append_nil]

/-- What shows the records of a reading that succeeds. -/
theorem readWatched_of_read_ok (hd : o.dialect.Proper) {records : List RawRecord}
    (h : read o bytes = .ok records) {σ : Type} (watch : σ → Nat → RawRecord → σ) (watched : σ) :
    readWatched watch watched o bytes = (showAll watch watched 1 records, .ok records) := by
  rcases linesCounted_cases o.dialect bytes with hlines | ⟨k, header, body, hlines⟩
  · rw [read_of_no_row hd hlines] at h
    injection h with h
    subst h
    exact readWatched_of_no_row hd hlines watch watched
  · obtain ⟨hheader, hbody, rfl⟩ := (read_eq_ok_iff hd hlines records).mp h
    exact readWatched_ok hd hlines hheader hbody watch watched

/-- **What was shown before a failure is what the input cut off at the fault gives.** -/
theorem read_take_fault (hd : o.dialect.Proper) {fault : Fault} (h : read o bytes = .error fault) :
    fault.place.byte ≤ bytes.length ∧ ∃ records,
      read o (bytes.take fault.place.byte) = .ok records ∧
      ∀ {σ : Type} (watch : σ → Nat → RawRecord → σ) (watched : σ),
        readWatched watch watched o bytes = (showAll watch watched 1 records, .error fault) := by
  cases course o.dialect bytes with
  | noRow hlines =>
    rw [read_of_no_row hd hlines] at h
    simp at h
  | @badHeader k header body hlines hheader =>
    obtain ⟨fault', hnames⟩ := exists_names_error o hheader
    rw [read_of_names_error hd hlines hnames] at h
    injection h with h
    subst h
    obtain ⟨rest, hrest, -⟩ := lines_of_linesCounted hlines
    have hplace : fault'.place = ⟨1, 0⟩ := by
      rw [Options.place_of_names hnames]
      exact start_first hd hrest fun l hl => List.eq_of_mem_replicate hl
    rw [hplace]
    exact ⟨Nat.zero_le _, [], rfl, fun watch watched =>
      readWatched_of_names_error hd hlines hnames watch watched⟩
  | noBadRow hlines hheader hbody =>
    rw [read_of_readable hd hlines hheader hbody] at h
    simp at h
  | badRow hlines hheader hfront hread hbad =>
    obtain ⟨fault', hcells⟩ := exists_cells_error o hbad _
    rw [read_of_cells_error hd hlines hheader hfront hread hcells] at h
    injection h with h
    subst h
    obtain ⟨hle, hcut⟩ := linesCounted_take_start hd hlines hfront
    rw [Options.place_of_cells hcells]
    exact ⟨hle, _, read_of_readable hd hcut hheader hread,
      fun watch watched => readWatched_fault hd hlines hheader hfront hread hcells watch watched⟩

/-- **Who watches sees what is read.**  A reading fails exactly when some field is not UTF-8.  When
it succeeds each record has been shown once, in order, with its number; when it fails the input cut
off at the place of the fault reads, and its records are those that have been shown. -/
theorem watched_agrees_with_read (hd : o.dialect.Proper) (bytes : Bytes) :
    ((∃ fault, read o bytes = .error fault) ↔
      ∃ row ∈ scan o.dialect bytes, ∃ field ∈ row.fields, ¬ Utf8.Valid field) ∧
    (∀ records, read o bytes = .ok records →
      ∀ {σ : Type} (watch : σ → Nat → RawRecord → σ) (watched : σ),
        readWatched watch watched o bytes =
          ((records.zipIdx 1).foldl (fun seen call => watch seen call.2 call.1) watched,
            .ok records)) ∧
    (∀ fault, read o bytes = .error fault →
      fault.place.byte ≤ bytes.length ∧
      ∃ records, read o (bytes.take fault.place.byte) = .ok records ∧
        ∀ {σ : Type} (watch : σ → Nat → RawRecord → σ) (watched : σ),
          readWatched watch watched o bytes =
            ((readWatched watch watched o (bytes.take fault.place.byte)).1, .error fault)) := by
  refine ⟨read_eq_error_iff hd bytes, ?_, ?_⟩
  · intro records h σ watch watched
    exact readWatched_of_read_ok hd h watch watched
  · intro fault h
    obtain ⟨hle, records, hcut, hwatched⟩ := read_take_fault hd h
    refine ⟨hle, records, hcut, ?_⟩
    intro σ watch watched
    rw [hwatched watch watched, readWatched_of_read_ok hd hcut watch watched]

/-- The bad row is the third; before it stand a row and a blank line, and the cut is inside the
`\r\n` after the row. -/
theorem watched_agrees_before_third_row :
    Options.standard.dialect.Proper ∧
      read Options.standard [97, 13, 10, 49, 13, 10, 13, 10, 255, 10] =
        .error ⟨2, ⟨2, 5⟩, 0, 0⟩ ∧
      ∃ records, read Options.standard [97, 13, 10, 49, 13] = .ok records ∧
        ∀ {σ : Type} (watch : σ → Nat → RawRecord → σ) (watched : σ),
          readWatched watch watched Options.standard [97, 13, 10, 49, 13, 10, 13, 10, 255, 10] =
            ((readWatched watch watched Options.standard [97, 13, 10, 49, 13]).1,
              .error ⟨2, ⟨2, 5⟩, 0, 0⟩) := by
  have hd : Options.standard.dialect.Proper := ⟨by decide, by decide, by decide⟩
  have hfault : read Options.standard [97, 13, 10, 49, 13, 10, 13, 10, 255, 10] =
      .error ⟨2, ⟨2, 5⟩, 0, 0⟩ := by cbv
  exact ⟨hd, hfault, ((watched_agrees_with_read hd _).2.2 _ hfault).2⟩

end Rowcast.Csv
