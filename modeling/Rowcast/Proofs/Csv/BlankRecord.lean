import Mathlib
import Rowcast.Proofs.Csv.Outcome

/-!
# Records of blank lines

Where blank lines count, every line after the header becomes one record, in order: a row the record
of its fields, and a blank line the record with an empty first field.  Line breaks in quotes are
content and make no record, with one exception.  An input that ends inside quotes ends its last row
without a line break, and the breaks at the end of the quoted field stand where those after a row
would.  If there are several, all but one are taken for blank lines.

`records_iff_not_open_quotes` says this exactly: the exception is the only one, and the records it
adds come last.
-/

namespace Rowcast.Csv

variable {o : Options} {bytes : Bytes}

/-- The lines after the header. -/
def dataLines (d : Dialect) (bytes : Bytes) : List Line :=
  ((lines d bytes).dropWhile Line.isBlank).tail

theorem dataLines_eq {d : Dialect} {k : Nat} {header : Row} {body : List Line}
    (h : lines d bytes = List.replicate k .blank ++ .row header :: body) :
    dataLines d bytes = body := by
  rw [dataLines, h, List.dropWhile_append_of_pos]
  · rfl
  · intro l hl
    rw [List.eq_of_mem_replicate hl]
    rfl

theorem overcount_eq_zero_iff (d : Dialect) (bytes : Bytes) :
    overcount d bytes = 0 ↔
      ¬ (EndsQuoted d bytes ∧ 2 ≤ countBreaks (breaksAtEnd bytes)) := by
  unfold overcount
  split
  · next h =>
    have hends : EndsQuoted d bytes := h
    rw [not_and]
    constructor
    · intro hcount _
      omega
    · intro hcount
      have := hcount hends
      omega
  · next h => exact iff_of_true rfl fun hends => h hends.1

theorem records_of_kept (hkeep : o.ignoreEmpty = false) (names : List String)
    (lines : List Line) : o.records names lines = lines.map (o.lineRecord names) := by
  rw [Options.records, Options.kept, hkeep]
  rfl

/-- **Every line after the header is one record**, and no other record is there, unless the input
ends inside quotes with several line breaks; all but one of these are then records too. -/
theorem records_iff_not_open_quotes (hd : o.dialect.Proper) (hkeep : o.ignoreEmpty = false)
    {header : Row} {rows : List Row} (hscan : scan o.dialect bytes = header :: rows)
    {records : List RawRecord} (hread : read o bytes = .ok records) :
    ∃ names, o.names header = .ok names ∧
      (dataLines o.dialect bytes).filterMap Line.row? = rows ∧
      records = (dataLines o.dialect bytes).map (o.lineRecord names) ++
        List.replicate (overcount o.dialect bytes) (o.blankRecord names) ∧
      (records = (dataLines o.dialect bytes).map (o.lineRecord names) ↔
        ¬ (EndsQuoted o.dialect bytes ∧ 2 ≤ countBreaks (breaksAtEnd bytes))) := by
  rcases linesCounted_cases o.dialect bytes with h | ⟨k, header', body, h⟩
  · rw [scan_eq_rows_counted hd, h] at hscan
    exact absurd hscan (List.cons_ne_nil _ _).symm
  rw [scan_of_linesCounted hd h] at hscan
  obtain ⟨rfl, hrows⟩ := List.cons.inj hscan
  obtain ⟨hheader, -, hrecords⟩ := (read_eq_ok_iff hd h records).mp hread
  obtain ⟨rest, hlines, rfl⟩ := lines_of_linesCounted h
  have hdata := dataLines_eq hlines
  rw [records_of_kept hkeep, List.map_append, List.map_replicate] at hrecords
  subst hrecords
  refine ⟨_, o.names_of_readable hheader, ?_, ?_, ?_⟩
  · rw [← hrows, hdata, List.filterMap_append, List.filterMap_replicate_of_none rfl,
      List.append_nil]
  · rw [hdata]
    rfl
  · rw [hdata, ← overcount_eq_zero_iff, List.append_right_eq_self, List.replicate_eq_nil_iff]

/-- An open quote, a letter and two line feeds after the header: one row and no blank line, but two
records. -/
theorem records_of_open_quotes :
    let o : Options := ⟨44, 34, false, false, false⟩
    let bytes : Bytes := [97, 10, 34, 120, 10, 10]
    o.dialect.Proper ∧ o.ignoreEmpty = false ∧
      scan o.dialect bytes = [⟨[[97]], ⟨1, 0⟩, ⟨2, 2⟩⟩, ⟨[[120, 10, 10]], ⟨2, 2⟩, ⟨4, 6⟩⟩] ∧
      read o bytes = .ok [.ofList [("a", some "x\n\n")], .ofList [("a", some "")]] ∧
      ∃ names, [.ofList [("a", some "x\n\n")], .ofList [("a", some "")]] ≠
        (dataLines o.dialect bytes).map (o.lineRecord names) := by
  intro o bytes
  have hd : o.dialect.Proper := ⟨by decide, by decide, by decide⟩
  have hscan : scan o.dialect bytes =
      [⟨[[97]], ⟨1, 0⟩, ⟨2, 2⟩⟩, ⟨[[120, 10, 10]], ⟨2, 2⟩, ⟨4, 6⟩⟩] := rfl
  have hread : read o bytes = .ok [.ofList [("a", some "x\n\n")], .ofList [("a", some "")]] := by
    cbv
  obtain ⟨names, -, -, -, hiff⟩ := records_iff_not_open_quotes hd rfl hscan hread
  have hends : EndsQuoted o.dialect bytes ∧ 2 ≤ countBreaks (breaksAtEnd bytes) := by decide
  exact ⟨hd, rfl, hscan, hread, names, fun h => hiff.mp h hends⟩

end Rowcast.Csv
