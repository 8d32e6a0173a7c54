import Mathlib
import Rowcast.Proofs.Csv.Outcome

/-!
# What counting blank lines changes

An input can be read with its blank lines ignored or with a record for each.  The two readings fail
together and in the same way, for only rows can fail, and rows do not depend on whether blank lines
count.  Where they succeed the second has the records of the first, all of them and in their order,
and between them copies of one record, the record of a blank line (`read_blank_lines_inserted`).

Both are told by the lines of the input: one reading makes a record of every line and the other one
of every row.  So the interleaving of the records is that of the lines (`interleaving_map`).
-/

namespace Rowcast.Csv

/-- The last list is made of the other two, each of them in its order. -/
inductive Interleaving {α : Type} : List α → List α → List α → Prop
  | nil : Interleaving [] [] []
  | left {a : α} {s t all : List α} : Interleaving s t all → Interleaving (a :: s) t (a :: all)
  | right {a : α} {s t all : List α} : Interleaving s t all → Interleaving s (a :: t) (a :: all)

/-- Lines are rows with blank lines between them. -/
theorem interleaving_map {α : Type} (f : Line → α) (lines : List Line) :
    Interleaving ((lines.filter fun l => !l.isBlank).map f)
      (List.replicate (lines.countP Line.isBlank) (f .blank)) (lines.map f) := by
  induction lines with
  | nil => exact .nil
  | cons l lines ih =>
    cases l with
    | row row =>
      rw [List.filter_cons_of_pos rfl, List.countP_cons_of_neg (by exact nofun)]
      exact .left ih
    | blank =>
      rw [List.filter_cons_of_neg (by exact nofun), List.countP_cons_of_pos rfl]
      exact .right ih

namespace Options

def ignoringBlanks (o : Options) : Options := { o with ignoreEmpty := true }

def countingBlanks (o : Options) : Options := { o with ignoreEmpty := false }

variable (o : Options) (names : List String)

theorem lineRecord_ignoringBlanks : o.ignoringBlanks.lineRecord names = o.lineRecord names := by
  funext l
  cases l <;> rfl

theorem lineRecord_countingBlanks : o.countingBlanks.lineRecord names = o.lineRecord names := by
  funext l
  cases l <;> rfl

theorem interleaving_records (lines : List Line) :
    Interleaving (o.ignoringBlanks.records names lines)
      (List.replicate (lines.countP Line.isBlank) (o.blankRecord names))
      (o.countingBlanks.records names lines) := by
  rw [records, records, lineRecord_ignoringBlanks, lineRecord_countingBlanks]
  exact interleaving_map (o.lineRecord names) lines

theorem blankRecord_cons (name : String) (rest : List String) :
    o.blankRecord (name :: rest) =
      .ofList [(name, if o.emptyAsNull then none else some "")] := by
  rw [blankRecord, rawField]
  simp only [and_true]
  rfl

end Options

/-- **Counting blank lines inserts their records and does nothing else.**  With blank lines ignored
and with blank lines counted a reading fails in the same way, or it succeeds both times.  Then
counting them puts copies of one record between the others: the first column with an empty field, or
with null where empty fields are null.  Where there are no columns nothing is put there. -/
theorem read_blank_lines_inserted {o : Options} (hd : o.dialect.Proper) (bytes : Bytes) :
    (∃ fault, read o.ignoringBlanks bytes = .error fault ∧
      read o.countingBlanks bytes = .error fault) ∨
    ∃ names records all, columnNames o bytes = .ok names ∧
      read o.ignoringBlanks bytes = .ok records ∧ read o.countingBlanks bytes = .ok all ∧
      ((names = [] ∧ all = records) ∨
        ∃ name rest n, names = name :: rest ∧
          Interleaving records
            (List.replicate n (.ofList [(name, if o.emptyAsNull then none else some "")])) all) := by
  -- The two readings have one dialect, so they see the same lines.
  have hignoring : o.ignoringBlanks.dialect.Proper := hd
  have hcounting : o.countingBlanks.dialect.Proper := hd
  cases course o.dialect bytes with
  | noRow h =>
    exact .inr ⟨[], [], [], columnNames_of_no_row hd h, read_of_no_row hignoring h,
      read_of_no_row hcounting h, .inl ⟨rfl, rfl⟩⟩
  | badHeader h hheader =>
    obtain ⟨fault, hnames⟩ := exists_names_error o hheader
    exact .inl ⟨fault, read_of_names_error hignoring h hnames,
      read_of_names_error hcounting h hnames⟩
  | badRow h hheader hfront hgood hbad =>
    obtain ⟨fault, hcells⟩ := exists_cells_error o hbad _
    exact .inl ⟨fault, read_of_cells_error hignoring h hheader hfront hgood hcells,
      read_of_cells_error hcounting h hheader hfront hgood hcells⟩
  | @noBadRow k header body h hheader hbody =>
    have hnames := o.names_of_readable hheader
    obtain ⟨name, rest, hcons⟩ := List.exists_cons_of_ne_nil (names_ne_nil hd h hnames)
    have hrecords := o.interleaving_records (o.namesOf header) body
    rw [hcons, o.blankRecord_cons, ← hcons] at hrecords
    exact .inr ⟨o.namesOf header, _, _, (columnNames_of_header hd h).trans hnames,
      read_of_readable hignoring h hheader hbody, read_of_readable hcounting h hheader hbody,
      .inr ⟨name, rest, body.countP Line.isBlank, hcons, hrecords⟩⟩

/-- A blank line before the only row, and breaks in its open quotes that are taken for another. -/
theorem read_blank_lines_inserted_around_open_quotes :
    let o : Options := ⟨44, 34, true, true, false⟩
    let bytes : Bytes := [97, 10, 10, 34, 49, 10, 10]
    let blank : RawRecord := .ofList [("a", none)]
    let row : RawRecord := .ofList [("a", some "1\n\n")]
    o.dialect.Proper ∧ read o.ignoringBlanks bytes = .ok [row] ∧
      read o.countingBlanks bytes = .ok [blank, row, blank] ∧
      ∃ n, Interleaving [row] (List.replicate n blank) [blank, row, blank] := by
  intro o bytes blank row
  have hd : o.dialect.Proper := ⟨by decide, by decide, by decide⟩
  have hnames : columnNames o bytes = .ok ["a"] := by cbv
  have hignoring : read o.ignoringBlanks bytes = .ok [row] := by cbv
  have hcounting : read o.countingBlanks bytes = .ok [blank, row, blank] := by cbv
  refine ⟨hd, hignoring, hcounting, ?_⟩
  rcases read_blank_lines_inserted hd bytes with
    ⟨fault, hfault, -⟩ | ⟨names, records, all, hnames', hrecords, hall, hcase⟩
  · rw [hignoring] at hfault
    injection hfault
  · rw [hnames, Except.ok.injEq] at hnames'
    rw [hignoring, Except.ok.injEq] at hrecords
    rw [hcounting, Except.ok.injEq] at hall
    subst hnames' hrecords hall
    rcases hcase with ⟨hnil, -⟩ | ⟨name, rest, n, hcons, hall⟩
    · injection hnil
    · obtain ⟨rfl, -⟩ := List.cons.inj hcons
      exact ⟨n, hall⟩

end Rowcast.Csv
