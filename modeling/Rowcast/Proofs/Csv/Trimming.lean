import Mathlib
import Rowcast.Proofs.Csv.Outcome
import Rowcast.Proofs.Record
import Rowcast.Proofs.Text.Blank

/-!
# What trimming and nulls change

Dropping blank space and taking empty fields for null are two changes to the texts of a reading and
to nothing else: each record is what the same record is when texts stay as they stand, with its
names and values cleaned one by one (`read_cleaned`).  This holds where the trimmed names of the
columns differ, for then cleaning makes no two of them the same.

A name is trimmed after it has been read as UTF-8.  A field loses white space of ASCII before that
and other blank space after it.  The outcome is the same: a byte of ASCII stands for one character,
and what is dropped first would be dropped later (`trim_toText_strip`).

Rows and blank lines are told apart before any of this, so a line of blank space only is a row and
not a blank line, whatever is dropped from it (`keepsRows_of_read`).
-/

namespace Rowcast.Csv

open Text

/-! ### Texts -/

theorem isBlank_of_isAsciiBlank (b : UInt8) (h : isAsciiBlank b = true) :
    isBlank (Char.ofNat b.toNat) = true := by
  simp only [isAsciiBlank, Bool.or_eq_true, beq_iff_eq] at h
  rcases h with (((rfl | rfl) | rfl) | rfl) | rfl <;> decide

/-- **White space of ASCII may be dropped before the rest of the blank space, or together with it.** -/
theorem trim_toText_strip {bytes : Bytes} (h : Utf8.Valid bytes) :
    trim (Utf8.toText (strip isAsciiBlank bytes)) = trim (Utf8.toText bytes) := by
  obtain ⟨left, right, hbytes, hleft, hright⟩ := exists_around_strip isAsciiBlank bytes
  obtain ⟨s, hs⟩ := (Utf8.valid_strip ascii_of_isAsciiBlank bytes).mpr h
  have hblank : ∀ ends : Bytes, (∀ b ∈ ends, isAsciiBlank b = true) →
      ∀ c ∈ Utf8.asciiChars ends, isBlank c = true := by
    intro ends hends c hc
    obtain ⟨b, hb, rfl⟩ := List.mem_map.mp hc
    exact isBlank_of_isAsciiBlank b (hends b hb)
  rw [← hs] at hbytes
  rw [← hs, hbytes, Utf8.toText_encode,
    Utf8.toText_around (fun b hb => ascii_of_isAsciiBlank b (hleft b hb))
      (fun b hb => ascii_of_isAsciiBlank b (hright b hb)),
    trim, trim, String.toList_ofList, strip_append (hblank left hleft) _ (hblank right hright)]

namespace Options

/-- The options with texts left as they stand. -/
def verbatim (o : Options) : Options := { o with trim := false, emptyAsNull := false }

def stripped (o : Options) (text : String) : String := if o.trim then Text.trim text else text

/-- A value, or null in place of an empty one, where empty fields are null. -/
def nulled (o : Options) (value : Option String) : Option String :=
  if o.emptyAsNull ∧ value = some "" then none else value

/-- What becomes of a field that has been read as it stands: blank space is dropped first. -/
def cleaned (o : Options) (field : String × Option String) : String × Option String :=
  (o.stripped field.1, o.nulled (field.2.map o.stripped))

variable (o : Options)

theorem trimmed_eq_map (texts : List String) : o.trimmed texts = texts.map o.stripped := by
  unfold trimmed stripped
  split
  · rfl
  · exact (List.map_id' texts).symm

theorem rawField_eq_nulled (text : String) : o.rawField text = o.nulled (some text) := by
  simp only [rawField, nulled, Option.some.injEq]

theorem namesOf_eq_map (header : Row) :
    o.namesOf header = (o.verbatim.namesOf header).map o.stripped := by
  rw [namesOf, trimmed_eq_map]
  rfl

theorem texts_eq_map {row : Row} (h : row.Readable) :
    o.texts row = (o.verbatim.texts row).map o.stripped := by
  show o.trimmed _ = (row.fields.map Utf8.toText).map o.stripped
  rw [trimmed_eq_map]
  by_cases htrim : o.trim = true
  · rw [if_pos htrim, List.map_map, List.map_map, List.map_map]
    refine List.map_congr_left fun field hfield => ?_
    have htext := trim_toText_strip (h field hfield)
    simpa [stripped, htrim] using htext
  · rw [if_neg htrim]

/-! ### Records -/

/-- A row holds its fields under the first names, as many as it has. -/
theorem fields_recordOf {names : List String} (h : names.Nodup) (texts : List String) :
    (o.recordOf names texts).fields =
      (names.zip texts).map fun (name, text) => (name, o.rawField text) := by
  have hfirst : (names.zip texts).map Prod.fst = names.take (min names.length texts.length) := by
    rw [List.zip_eq_zip_take_min, List.map_fst_zip (by simp)]
  refine Record.fields_ofList ?_
  rw [List.map_map]
  show ((names.zip texts).map Prod.fst).Nodup
  rw [hfirst]
  exact h.sublist (List.take_sublist _ names)

/-- Blank space around an empty text is empty, so a blank line keeps its field. -/
theorem stripped_empty : o.stripped "" = "" := by
  unfold stripped
  split <;> rfl

theorem fields_lineRecord {names : List String} (h : (names.map o.stripped).Nodup) {l : Line}
    (hl : AllReadable [l]) :
    (o.lineRecord (names.map o.stripped) l).fields =
      (o.verbatim.lineRecord names l).fields.map o.cleaned := by
  cases l with
  | blank =>
    cases names with
    | nil => rfl
    | cons name names =>
      show [(o.stripped name, o.rawField "")] = [o.cleaned (name, some "")]
      rw [cleaned, Option.map_some, stripped_empty, rawField_eq_nulled]
  | row row =>
    have hrow : row.Readable := hl row List.mem_cons_self
    show (o.recordOf _ (o.texts row)).fields = (o.verbatim.recordOf names _).fields.map o.cleaned
    rw [o.texts_eq_map hrow, o.fields_recordOf h, o.verbatim.fields_recordOf h.of_map, List.zip_map,
      List.map_map, List.map_map]
    refine List.map_congr_left fun (name, text) _ => ?_
    show (o.stripped name, o.rawField (o.stripped text)) = o.cleaned (name, some text)
    rw [cleaned, Option.map_some, rawField_eq_nulled]

/-- **Line by line the records of a reading are cleaned records.** -/
theorem fields_records {names : List String} (h : (names.map o.stripped).Nodup) {lines : List Line}
    (hlines : AllReadable lines) :
    (o.records (names.map o.stripped) lines).map Record.fields =
      (o.verbatim.records names lines).map fun record => record.fields.map o.cleaned := by
  have hkept : ∀ l ∈ o.kept lines, l ∈ lines := by
    intro l hl
    unfold kept at hl
    split at hl
    · exact List.mem_of_mem_filter hl
    · exact hl
  rw [records, records, List.map_map, List.map_map]
  show (o.kept lines).map _ = (o.kept lines).map _
  refine List.map_congr_left fun l hl => ?_
  refine o.fields_lineRecord h fun row hrow => hlines row ?_
  rw [List.mem_singleton.mp hrow]
  exact hkept l hl

end Options

/-! ### Rows -/

/-- A row that has come to its end before the input has, ended with a line break. -/
theorem exists_break_of_outside {d : Dialect} (hd : d.Proper) {bytes : Bytes}
    (hrow : scan d bytes ≠ []) (hout : (atEnd d bytes).state = .outside) :
    ∃ t ∈ bytes, isBreak t = true := by
  rw [scan_eq_rows hd] at hrow
  obtain ⟨row, hrow⟩ := List.exists_mem_of_ne_nil _ hrow
  obtain ⟨l, hl, hlrow⟩ := List.mem_filterMap.mp hrow
  cases l with
  | blank => exact absurd hlrow nofun
  | row r =>
    obtain ⟨front, back, hsplit⟩ := List.append_of_mem hl
    rcases Scanner.lines_eq_append_row hd hsplit with ⟨a, rest, t, hbytes, ht, -⟩ | ⟨hopen, -⟩
    · refine ⟨t, List.mem_of_mem_drop (i := markLength bytes) ?_, ht⟩
      rw [hbytes]
      exact List.mem_append_right a List.mem_cons_self
    · exact absurd hout hopen

/-- **Where no row is open, a byte that is no line break belongs to a row**, the next of the lines. -/
theorem exists_row_of_line_start {d : Dialect} (hd : d.Proper) {before : Bytes}
    (hrow : scan d before ≠ []) (hout : (atEnd d before).state = .outside) {b : UInt8}
    (hb : isBreak b = false) (after : Bytes) :
    ∃ row back, before.length < row.stop.byte ∧
      linesCounted d (before ++ b :: after) = linesCounted d before ++ .row row :: back := by
  obtain ⟨hlines, -⟩ := lines_append_of_outside (exists_break_of_outside hd hrow hout) hout
    (b :: after)
  obtain ⟨row, back, hrest⟩ :=
    Scanner.exists_row_lines hd (Scanner.step_solid d (atEnd d before) hb).1 b after
  have hstop : ((atEnd d before).step d b).here.byte ≤ row.stop.byte :=
    here_le_stop hd (hrest.trans (List.nil_append _).symm)
  rw [Scanner.step_here] at hstop
  refine ⟨row, back ++ List.replicate (overcount d (before ++ b :: after)) .blank, ?_, ?_⟩
  · rw [← atEnd_here_byte d before]
    exact hstop
  · rw [linesCounted_of_outside hout, linesCounted, hlines, Scanner.lines_cons,
      Scanner.lineAt_solid _ _ hb, hrest, List.append_assoc]
    rfl

/-- Each line that holds anything has its record.  Where no row is open, a byte that is no line break
is in the row that comes after those of the bytes before it, and the record of that row comes after
the records of those bytes. -/
def KeepsRows (o : Options) (names : List String) (bytes : Bytes) (records : List RawRecord) : Prop :=
  ∀ before b after, bytes = before ++ b :: after → scan o.dialect before ≠ [] →
    (atEnd o.dialect before).state = .outside → isBreak b = false →
    ∃ row rest texts front back, before.length < row.stop.byte ∧
      scan o.dialect bytes = scan o.dialect before ++ row :: rest ∧
      o.cells row (scan o.dialect before).length = .ok texts ∧
      read o before = .ok front ∧ records = front ++ o.recordOf names texts :: back

/-- **Whatever is dropped from a line, it keeps its record.** -/
theorem keepsRows_of_read {o : Options} (hd : o.dialect.Proper) {bytes : Bytes}
    {names : List String} {records : List RawRecord} (hnames : columnNames o bytes = .ok names)
    (hread : read o bytes = .ok records) : KeepsRows o names bytes records := by
  rintro before b after rfl hrow hout hb
  obtain ⟨row, more, hstop, hmore⟩ := exists_row_of_line_start hd hrow hout hb after
  rcases linesCounted_cases o.dialect before with hnone | ⟨k, header, body, hbefore⟩
  · rw [scan_eq_rows_counted hd, hnone] at hrow
    exact absurd rfl hrow
  · rw [hbefore, List.append_assoc, List.cons_append] at hmore
    obtain ⟨hheader, hall, rfl⟩ := (read_eq_ok_iff hd hmore records).mp hread
    rw [columnNames_of_header hd hmore, o.names_of_readable hheader, Except.ok.injEq] at hnames
    subst hnames
    have hreadable : row.Readable := hall row (List.mem_append_right body List.mem_cons_self)
    refine ⟨row, more.filterMap Line.row?, o.texts row, _, o.records (o.namesOf header) more,
      hstop, ?_, o.cells_of_readable hreadable _,
      read_of_readable hd hbefore hheader hall.left, ?_⟩
    · rw [scan_of_linesCounted hd hmore, scan_of_linesCounted hd hbefore, List.filterMap_append]
      rfl
    · rw [Options.records_append, ← List.singleton_append, Options.records_append,
        Options.records_row, List.singleton_append]

/-! ### Whole readings -/

def Options.trimming (o : Options) : Options := { o with trim := true }

/-- Names that differ when trimmed differ also as the options have them. -/
theorem Options.nodup_stripped {o : Options} {header : Row}
    (h : (o.trimming.namesOf header).Nodup) :
    ((o.verbatim.namesOf header).map o.stripped).Nodup := by
  have htrimming : o.trimming.namesOf header = (o.verbatim.namesOf header).map Text.trim :=
    o.trimming.namesOf_eq_map header
  by_cases htrim : o.trim = true
  · have hstripped : o.stripped = Text.trim := funext fun text => if_pos htrim
    rw [hstripped, ← htrimming]
    exact h
  · have hstripped : o.stripped = id := funext fun text => if_neg htrim
    rw [hstripped, List.map_id]
    rw [htrimming] at h
    exact h.of_map

/-- **Dropping blank space and taking empty fields for null change texts one by one.**  Where the
trimmed names of the columns differ, a reading fails exactly if the reading that leaves texts as
they stand fails.  Otherwise the one has a record for each record of the other, with the same fields
in the same order, each of them cleaned.  And each line that is not empty, be it blank space, keeps
its record. -/
theorem read_cleaned {o : Options} (hd : o.dialect.Proper) {bytes : Bytes}
    (hnodup : ∀ names, columnNames o.trimming bytes = .ok names → names.Nodup) :
    (∃ fault fault', read o bytes = .error fault ∧ read o.verbatim bytes = .error fault') ∨
    ∃ names records plain, columnNames o bytes = .ok names ∧ read o bytes = .ok records ∧
      read o.verbatim bytes = .ok plain ∧
      records.map Record.fields = plain.map (fun record => record.fields.map o.cleaned) ∧
      KeepsRows o names bytes records := by
  -- The three readings have one dialect, so they see the same lines.
  have hverbatim : o.verbatim.dialect.Proper := hd
  have htrimming : o.trimming.dialect.Proper := hd
  cases course o.dialect bytes with
  | noRow h =>
    have hnames := columnNames_of_no_row hd h
    have hread := read_of_no_row hd h
    exact .inr ⟨[], [], [], hnames, hread, read_of_no_row hverbatim h, rfl,
      keepsRows_of_read hd hnames hread⟩
  | badHeader h hheader =>
    obtain ⟨fault, hnames⟩ := exists_names_error o hheader
    obtain ⟨fault', hnames'⟩ := exists_names_error o.verbatim hheader
    exact .inl ⟨fault, fault', read_of_names_error hd h hnames,
      read_of_names_error hverbatim h hnames'⟩
  | badRow h hheader hfront hgood hbad =>
    obtain ⟨fault, hcells⟩ := exists_cells_error o hbad _
    obtain ⟨fault', hcells'⟩ := exists_cells_error o.verbatim hbad _
    exact .inl ⟨fault, fault', read_of_cells_error hd h hheader hfront hgood hcells,
      read_of_cells_error hverbatim h hheader hfront hgood hcells'⟩
  | @noBadRow k header body h hheader hbody =>
    have hnames := (columnNames_of_header hd h).trans (o.names_of_readable hheader)
    have hread := read_of_readable hd h hheader hbody
    have hcolumns := (columnNames_of_header htrimming h).trans
      (o.trimming.names_of_readable hheader)
    have hfields := o.fields_records (o.nodup_stripped (hnodup _ hcolumns)) hbody
    rw [← o.namesOf_eq_map] at hfields
    exact .inr ⟨_, _, _, hnames, hread, read_of_readable hverbatim h hheader hbody, hfields,
      keepsRows_of_read hd hnames hread⟩

/-- A line of blank space, and a field with a no-break space that is dropped only after decoding. -/
theorem read_cleaned_of_line_of_blank_space :
    let o : Options := ⟨44, 34, true, true, true⟩
    let before : Bytes := [32, 97, 44, 98, 10]
    let bytes : Bytes := before ++ 32 :: [9, 10, 49, 0xC2, 0xA0, 44, 32, 10]
    let records : List RawRecord :=
      [.ofList [("a", none)], .ofList [("a", some "1"), ("b", none)]]
    let plain : List RawRecord :=
      [.ofList [(" a", some " \t")], .ofList [(" a", some "1\u00a0"), ("b", some " ")]]
    o.dialect.Proper ∧ columnNames o.trimming bytes = .ok ["a", "b"] ∧ ["a", "b"].Nodup ∧
      read o bytes = .ok records ∧ read o.verbatim bytes = .ok plain ∧
      records.map Record.fields = plain.map (fun record => record.fields.map o.cleaned) ∧
      ∃ row rest, scan o.dialect bytes = scan o.dialect before ++ row :: rest ∧
        before.length < row.stop.byte := by
  intro o before bytes records plain
  have hd : o.dialect.Proper := ⟨by decide, by decide, by decide⟩
  have hcolumns : columnNames o.trimming bytes = .ok ["a", "b"] := by cbv
  have hdiffer : ["a", "b"].Nodup := by decide
  have hread : read o bytes = .ok records := by cbv
  have hplain : read o.verbatim bytes = .ok plain := by cbv
  have hnodup : ∀ names, columnNames o.trimming bytes = .ok names → names.Nodup := by
    intro names hnames
    rw [hcolumns, Except.ok.injEq] at hnames
    exact hnames ▸ hdiffer
  rcases read_cleaned hd hnodup with
    ⟨fault, fault', hfault, -⟩ | ⟨names, records', plain', -, hread', hplain', hfields, hrows⟩
  · rw [hread] at hfault
    injection hfault
  · rw [hread, Except.ok.injEq] at hread'
    rw [hplain, Except.ok.injEq] at hplain'
    subst hread' hplain'
    obtain ⟨row, rest, texts, front, back, hstop, hscan, -⟩ :=
      hrows before 32 _ rfl (by decide) (by decide) (by decide)
    exact ⟨hd, hcolumns, hdiffer, hread, hplain, hfields, row, rest, hscan, hstop⟩

end Rowcast.Csv
