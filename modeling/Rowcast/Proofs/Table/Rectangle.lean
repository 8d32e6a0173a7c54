import Mathlib
import Rowcast.Proofs.Number.Decimal
import Rowcast.Proofs.Record
import Rowcast.Proofs.Text.Width
import Rowcast.Table.Render

/-!
# Tables are rectangles

`rectangle` says line by line what the table of some records is, without cells and grids: a title
and a text for each column and row, padded to the width of the longest of its column.
`render?_rectangle` is the result: where names and values are printable, the table is that
rectangle.  A value may break its line, since a cell shows spaces there.

A printable text is a cell of at most one line that is as wide as it is long (`shows_linesOf`).
With such cells the columns of a grid no longer depend on each other: folding the rows over the
widths is a fold in each column (`foldl_widen`), every row is one line (`rowLines_cells`), and the
grid is drawn as its texts are ruled (`lines_sheet`).  It remains to see the records as such a
sheet, one column for each `Heading` (`gridOf_eq`).
-/

namespace Rowcast.Table

open Text

/-! ### Ruled texts -/

section Ruled

variable {κ : Type}

def widest (texts : List (List Char)) : Nat := (texts.map List.length).max?.getD 0

/-- A line across the columns. -/
def bar (columns : List κ) (width : κ → Nat) : List Char :=
  '+' :: columns.flatMap fun column => List.replicate (width column + 2) '-' ++ ['+']

/-- One text in each column, on the left and with spaces after it. -/
def boxed (columns : List κ) (width : κ → Nat) (text : κ → List Char) : List Char :=
  '|' :: columns.flatMap fun column =>
    ' ' :: (text column).rightpad (width column) ' ' ++ [' ', '|']

/-- Titles between two lines, rows below them and a line at the end. -/
def ruled (columns : List κ) (width : κ → Nat) (title : κ → List Char)
    (rows : List (κ → List Char)) : List (List Char) :=
  bar columns width :: boxed columns width title :: bar columns width ::
    (rows.map (boxed columns width) ++ [bar columns width])

variable {columns : List κ} {width : κ → Nat} {title : κ → List Char}
  {rows : List (κ → List Char)}

theorem mem_ruled {line : List Char} (h : line ∈ ruled columns width title rows) :
    line = bar columns width ∨ ∃ text ∈ title :: rows, line = boxed columns width text := by
  simp only [ruled, List.mem_cons, List.mem_append, List.mem_map, List.not_mem_nil, or_false] at h
  rcases h with rfl | rfl | rfl | ⟨text, htext, rfl⟩ | rfl
  · exact .inl rfl
  · exact .inr ⟨title, List.mem_cons_self, rfl⟩
  · exact .inl rfl
  · exact .inr ⟨text, List.mem_cons_of_mem _ htext, rfl⟩
  · exact .inl rfl

theorem length_ruled : (ruled columns width title rows).length = rows.length + 4 := by
  simp [ruled]

/-- Titles and rows stand between borders, and no line across the columns does. -/
theorem count_bar_ruled : (ruled columns width title rows).count (bar columns width) = 3 := by
  have hne (text : κ → List Char) : boxed columns width text ≠ bar columns width := by
    simp [boxed, bar]
  have hrows : (rows.map (boxed columns width)).count (bar columns width) = 0 := by
    rw [List.count_eq_zero, List.mem_map]
    rintro ⟨text, -, htext⟩
    exact hne text htext
  rw [ruled, List.count_cons_self, List.count_cons_of_ne (hne title), List.count_cons_self,
    List.count_append, hrows, List.count_singleton_self]

theorem length_le_widest {s : List Char} {texts : List (List Char)} (h : s ∈ texts) :
    s.length ≤ widest texts :=
  List.le_max?_getD_of_mem (List.mem_map_of_mem h)

/-- Between its borders a text takes what its column has, if it fits there. -/
theorem length_boxed {text : κ → List Char}
    (h : ∀ column ∈ columns, (text column).length ≤ width column) :
    (boxed columns width text).length = (bar columns width).length := by
  rw [boxed, bar, List.length_cons, List.length_cons, List.length_flatMap, List.length_flatMap]
  congr 2
  refine List.map_congr_left fun column hmem => ?_
  have hfits := h column hmem
  simp only [List.cons_append, List.length_cons, List.length_append, List.length_rightpad,
    List.length_replicate, List.length_nil]
  omega

theorem not_mem_bar : '\n' ∉ bar columns width := by
  simp [bar]

theorem not_mem_boxed {text : κ → List Char} (h : ∀ column ∈ columns, '\n' ∉ text column) :
    '\n' ∉ boxed columns width text := by
  simpa [boxed, List.rightpad] using h

end Ruled

/-! ### The columns of records -/

inductive Heading where
  | index
  | name (s : String)

def unbroken (c : Char) : Char := if c = '\r' ∨ c = '\n' then ' ' else c

def Heading.title : Heading → List Char
  | index => "(index)".toList
  | name s => s.toList

/-- What a column shows of the record with the given number. -/
def Heading.entry (record : OutputRecord) (number : Nat) : Heading → List Char
  | index => (toString number).toList
  | name s => match record.get? s with
    | none | some .null => []
    | some value => value.display.toList.map unbroken

/-- The numbers first, then the names of the records, each once and as they first come. -/
def headings (records : List OutputRecord) : List Heading :=
  .index :: (records.flatMap Record.keys).eraseDups.map .name

def entries (records : List OutputRecord) : List (Heading → List Char) :=
  records.zipIdx.map fun (record, number) => Heading.entry record number

def columnWidth (records : List OutputRecord) (heading : Heading) : Nat :=
  widest (heading.title :: (entries records).map (· heading))

def rectangle (records : List OutputRecord) : List (List Char) :=
  ruled (headings records) (columnWidth records) Heading.title (entries records)

/-- Names are printable, and so are values but for line breaks. -/
structure Printable (record : OutputRecord) : Prop where
  names : ∀ name ∈ record.keys, ∀ c ∈ name.toList, IsPrintable c
  values : ∀ field ∈ record.fields, ∀ c ∈ field.2.display.toList,
    IsPrintable c ∨ c = '\r' ∨ c = '\n'

-- The characters of a text are tried one by one, not all characters there are.
instance (record : OutputRecord) : Decidable (Printable record) :=
  decidable_of_iff
    ((record.keys.all fun name => name.toList.all (IsPrintable ·)) ∧
      record.fields.all fun field =>
        field.2.display.toList.all fun c => IsPrintable c ∨ c = '\r' ∨ c = '\n')
    ⟨fun h => ⟨by simpa using h.1, by simpa using h.2⟩,
      fun h => ⟨by simpa using h.names, by simpa using h.values⟩⟩

/-! ### Cells of one line -/

/-- The cell is the text on one line, or no line where there is no text. -/
structure Shows (cell : Cell) (s : List Char) : Prop where
  width : cellWidth cell = s.length
  height : cell.length ≤ 1
  line : cell.getD 0 [] = s
  visible : visibleWidth s = s.length
  drawable : cell.all hasVisibleWidth = true

theorem linesOf_of_no_break {s : List Char} (h : '\n' ∉ s) :
    linesOf s = if s.isEmpty then [] else [s] := by
  have hparts : s.splitOn '\n' = [s] := List.splitOn_eq_singleton h
  cases s with
  | nil => rfl
  | cons c s => simp [linesOf, hparts]

theorem shows_linesOf {s : List Char} (h : ∀ c ∈ s, IsPrintable c) : Shows (linesOf s) s := by
  have hvisible := visibleWidth_of_printable h
  have hdrawable := hasVisibleWidth_of_printable h
  have hbreak : '\n' ∉ s := fun hmem => absurd (h _ hmem) (by decide)
  rw [linesOf_of_no_break hbreak]
  cases s with
  | nil => exact ⟨rfl, Nat.zero_le _, rfl, hvisible, rfl⟩
  | cons c s =>
    refine ⟨?_, le_rfl, rfl, hvisible, ?_⟩
    · simp [cellWidth, hvisible]
    · simp [hdrawable]

/-! ### Sheets of texts -/

section Sheet

variable {κ : Type}

def cells (columns : List κ) (text : κ → List Char) : List Cell :=
  columns.map fun column => linesOf (text column)

def sheet (columns : List κ) (title : κ → List Char) (rows : List (κ → List Char)) : Grid where
  titles := cells columns title
  rows := rows.map (cells columns)

def PrintableRow (columns : List κ) (text : κ → List Char) : Prop :=
  ∀ column ∈ columns, ∀ c ∈ text column, IsPrintable c

variable {columns : List κ} {title text : κ → List Char} {rows : List (κ → List Char)}
  {width : κ → Nat}

theorem PrintableRow.shows (h : PrintableRow columns text) {column : κ} (hmem : column ∈ columns) :
    Shows (linesOf (text column)) (text column) :=
  shows_linesOf (h column hmem)

theorem map_cellWidth (h : PrintableRow columns text) :
    (cells columns text).map cellWidth = columns.map fun column => (text column).length := by
  rw [cells, List.map_map]
  exact List.map_congr_left fun column hmem => (h.shows hmem).width

theorem widen_cells (h : PrintableRow columns text) :
    widen (columns.map width) (cells columns text) =
      columns.map fun column => max (width column) (text column).length := by
  rw [widen, map_cellWidth h, List.zipWith_map, List.zipWith_self]

/-- Each column is folded by itself. -/
theorem foldl_widen (h : ∀ text ∈ rows, PrintableRow columns text) :
    (rows.map (cells columns)).foldl widen (columns.map width) =
      columns.map fun column =>
        (rows.map fun text => (text column).length).foldl max (width column) := by
  induction rows generalizing width with
  | nil => rfl
  | cons text rows ih =>
    obtain ⟨htext, hrows⟩ := List.forall_mem_cons.mp h
    rw [List.map_cons, List.foldl_cons, widen_cells htext, ih hrows]
    rfl

theorem widths_sheet (htitle : PrintableRow columns title)
    (hrows : ∀ text ∈ rows, PrintableRow columns text) :
    (sheet columns title rows).widths =
      columns.map fun column => widest (title column :: rows.map (· column)) := by
  show (rows.map (cells columns)).foldl widen ((cells columns title).map cellWidth) = _
  rw [map_cellWidth htitle, foldl_widen hrows]
  refine List.map_congr_left fun column _ => ?_
  rw [widest, List.map_cons, List.max?_cons', Option.getD_some, List.map_map]
  rfl

theorem separator_map : separator (columns.map width) = bar columns width := by
  rw [separator, List.flatMap_map]
  rfl

theorem foldl_max_one {heights : List Nat} (h : ∀ n ∈ heights, n ≤ 1) :
    heights.foldl max 1 = 1 := by
  induction heights with
  | nil => rfl
  | cons n heights ih =>
    obtain ⟨hn, hheights⟩ := List.forall_mem_cons.mp h
    rw [List.foldl_cons, max_eq_left hn, ih hheights]

/-- A row of printable texts is one line. -/
theorem rowLines_cells (h : PrintableRow columns text) :
    rowLines (columns.map width) (cells columns text) = [boxed columns width text] := by
  have hheight : rowHeight (cells columns text) = 1 := by
    refine foldl_max_one fun n hn => ?_
    simp only [cells, List.mem_map] at hn
    obtain ⟨-, ⟨column, hmem, rfl⟩, rfl⟩ := hn
    exact (h.shows hmem).height
  have hline : rowLine (columns.map width) (cells columns text) 0 = boxed columns width text := by
    rw [rowLine, cells, List.zip_map', List.flatMap_map, boxed]
    congr 1
    refine List.flatMap_congr fun column hmem => ?_
    have hshows := h.shows hmem
    dsimp only
    rw [hshows.line, padded, hshows.visible, List.rightpad]
  rw [rowLines, hheight, List.range_one, List.map_singleton, hline]

theorem flatMap_rowLines (h : ∀ text ∈ rows, PrintableRow columns text) :
    (rows.map (cells columns)).flatMap (rowLines (columns.map width)) =
      rows.map (boxed columns width) := by
  rw [List.flatMap_map, List.map_eq_flatMap (f := boxed columns width)]
  exact List.flatMap_congr fun text hmem => rowLines_cells (h text hmem)

theorem lines_sheet (htitle : PrintableRow columns title)
    (hrows : ∀ text ∈ rows, PrintableRow columns text) :
    (sheet columns title rows).lines =
      ruled columns (fun column => widest (title column :: rows.map (· column))) title rows := by
  rw [Grid.lines, widths_sheet htitle hrows, separator_map]
  simp only [sheet, rowLines_cells htitle, flatMap_rowLines hrows]
  rfl

theorem isDrawable_sheet (htitle : PrintableRow columns title)
    (hrows : ∀ text ∈ rows, PrintableRow columns text) :
    (sheet columns title rows).isDrawable = true := by
  have hcells {text : κ → List Char} (h : PrintableRow columns text) :
      (cells columns text).all (fun cell => cell.all hasVisibleWidth) = true := by
    rw [List.all_eq_true]
    intro cell hcell
    obtain ⟨column, hmem, rfl⟩ := List.mem_map.mp hcell
    exact (h.shows hmem).drawable
  rw [Grid.isDrawable, List.all_eq_true]
  intro row hrow
  rcases List.mem_cons.mp hrow with rfl | hrow
  · exact hcells htitle
  · obtain ⟨text, hmem, rfl⟩ := List.mem_map.mp hrow
    exact hcells (hrows text hmem)

end Sheet

/-! ### Records as a sheet -/

theorem eraseDups_eq_keys (names : List String) :
    names.eraseDups = (Record.ofList (names.map fun name => (name, ()))).keys := by
  rw [Record.keys_ofList, List.map_map]
  exact congrArg _ (List.map_id names).symm

/-- Names are collected as a record collects them. -/
theorem columnNames_eq (records : List OutputRecord) :
    columnNames records = (records.flatMap Record.keys).eraseDups := by
  have hkeys (names : List String) (record : Record Unit) : names.foldl addName record.keys =
      (names.foldl (fun record name => record.set name ()) record).keys := by
    induction names generalizing record with
    | nil => rfl
    | cons name names ih =>
      rw [List.foldl_cons, List.foldl_cons, ← ih, Record.keys_set]
      rfl
  rw [eraseDups_eq_keys, Record.ofList, List.foldl_map, ← hkeys]
  rfl

theorem cellOf_eq (record : OutputRecord) (number : Nat) (name : String) :
    cellOf record name = linesOf (Heading.entry record number (.name name)) := by
  rw [cellOf, Heading.entry]
  cases record.get? name with
  | none => rfl
  | some value => cases value <;> rfl

theorem gridOf_eq (records : List OutputRecord) :
    gridOf records = sheet (headings records) Heading.title (entries records) := by
  have hcells (text : Heading → List Char) (names : List String) :
      cells (.index :: names.map .name) text =
        linesOf (text .index) :: names.map fun name => linesOf (text (.name name)) := by
    simp [cells]
  simp only [gridOf, sheet, headings, columnNames_eq, hcells, entries, List.map_map, Grid.mk.injEq]
  refine ⟨rfl, List.map_congr_left fun numbered _ => ?_⟩
  obtain ⟨record, number⟩ := numbered
  rw [Function.comp_apply, hcells]
  exact congrArg _ (List.map_congr_left fun name _ => cellOf_eq record number name)

/-! ### Printable records -/

theorem unbroken_isPrintable {c : Char} (h : IsPrintable c ∨ c = '\r' ∨ c = '\n') :
    IsPrintable (unbroken c) := by
  rw [unbroken]
  split
  · decide
  · next hbreak => exact h.resolve_right hbreak

theorem toString_isPrintable (n : Nat) : ∀ c ∈ (toString n).toList, IsPrintable c := by
  have htext : (toString n).toList = Nat.toDigits 10 n := String.toList_ofList
  rw [htext]
  exact fun c hc => isPrintable_of_digit (Decimal.isDigit_of_mem_toDigits hc)

theorem Printable.entry {record : OutputRecord} (h : Printable record) (number : Nat)
    (heading : Heading) : ∀ c ∈ heading.entry record number, IsPrintable c := by
  cases heading with
  | index => exact toString_isPrintable number
  | name s =>
    intro c hc
    rw [Heading.entry] at hc
    split at hc
    · simp at hc
    · simp at hc
    · next value _ hget =>
      obtain ⟨before, hbefore, rfl⟩ := List.mem_map.mp hc
      exact unbroken_isPrintable (h.values _ (Record.get?_eq_some_iff.mp hget) before hbefore)

section Records

variable {records : List OutputRecord}

theorem printableRow_title (h : ∀ record ∈ records, Printable record) :
    PrintableRow (headings records) Heading.title := by
  intro heading hheading
  rcases List.mem_cons.mp hheading with rfl | hname
  · show ∀ c ∈ "(index)".toList, IsPrintable c
    simp [IsPrintable]
  · obtain ⟨name, hmem, rfl⟩ := List.mem_map.mp hname
    obtain ⟨record, hrecord, hkey⟩ := List.mem_flatMap.mp (List.mem_eraseDups.mp hmem)
    exact (h record hrecord).names name hkey

theorem printableRow_entries (h : ∀ record ∈ records, Printable record) :
    ∀ text ∈ entries records, PrintableRow (headings records) text := by
  intro text htext heading _
  obtain ⟨⟨record, number⟩, hmem, rfl⟩ := List.mem_map.mp htext
  exact (h record (List.fst_mem_of_mem_zipIdx hmem)).entry number heading

end Records

/-! ### The table -/

theorem gridOf_lines {records : List OutputRecord} (h : ∀ record ∈ records, Printable record) :
    (gridOf records).lines = rectangle records := by
  rw [gridOf_eq, lines_sheet (printableRow_title h) (printableRow_entries h)]
  rfl

theorem gridOf_isDrawable {records : List OutputRecord} (h : ∀ record ∈ records, Printable record) :
    (gridOf records).isDrawable = true := by
  rw [gridOf_eq]
  exact isDrawable_sheet (printableRow_title h) (printableRow_entries h)

theorem length_of_mem_rectangle {records : List OutputRecord} {line : List Char}
    (h : line ∈ rectangle records) :
    line.length = (bar (headings records) (columnWidth records)).length := by
  rcases mem_ruled h with rfl | ⟨text, htext, rfl⟩
  · rfl
  · refine length_boxed fun heading _ => length_le_widest ?_
    show text heading ∈ (Heading.title :: entries records).map fun text => text heading
    exact List.mem_map_of_mem htext

theorem no_break_of_mem_rectangle {records : List OutputRecord}
    (hprintable : ∀ record ∈ records, Printable record) {line : List Char}
    (h : line ∈ rectangle records) : '\n' ∉ line := by
  have hfeed : ¬ IsPrintable '\n' := by decide
  rcases mem_ruled h with rfl | ⟨text, htext, rfl⟩
  · exact not_mem_bar
  · have hrow : PrintableRow (headings records) text := by
      rcases List.mem_cons.mp htext with rfl | hentry
      · exact printableRow_title hprintable
      · exact printableRow_entries hprintable text hentry
    exact not_mem_boxed fun heading hheading hmem => hfeed (hrow heading hheading _ hmem)

theorem nodup_headings (records : List OutputRecord) : (headings records).Nodup := by
  rw [headings, List.nodup_cons, eraseDups_eq_keys]
  refine ⟨by simp, List.Nodup.map (fun _ _ hname => Heading.name.inj hname) ?_⟩
  exact (Record.ofList _).nodup

/-- **A table is a rectangle.**  Its lines are those of `rectangle`: as many as there are rows and
four more, all of one length, three of them lines across it, and under the numbers one column for
each name.  What comes after the rows shown does not matter. -/
theorem render?_rectangle (records : List OutputRecord) (maxRows : Nat)
    (h : ∀ record ∈ records.take maxRows, Printable record) :
    let shown := records.take maxRows
    let line := bar (headings shown) (columnWidth shown)
    (∃ text, render? records maxRows = some text ∧ text.toList.splitOn '\n' = rectangle shown) ∧
      (rectangle shown).length = min records.length maxRows + 4 ∧
      (∀ other ∈ rectangle shown, other.length = line.length) ∧
      (rectangle shown).count line = 3 ∧
      (headings shown).Nodup ∧
      ∀ others, others.take maxRows = shown → render? others maxRows = render? records maxRows := by
  intro shown line
  have hrender : render? records maxRows =
      some (String.ofList ((rectangle shown).intersperse ['\n']).flatten) := by
    rw [render?, if_pos (gridOf_isDrawable h), gridOf_lines h]
  have hcut : (String.ofList ((rectangle shown).intersperse ['\n']).flatten).toList.splitOn '\n' =
      rectangle shown := by
    rw [String.toList_ofList]
    exact List.splitOn_intercalate '\n' (fun _ hmem => no_break_of_mem_rectangle h hmem)
      (List.cons_ne_nil _ _)
  have hlength : (entries shown).length = min records.length maxRows := by
    rw [entries, List.length_map, List.length_zipIdx, List.length_take, Nat.min_comm]
  refine ⟨⟨_, hrender, hcut⟩, ?_, fun _ hmem => length_of_mem_rectangle hmem, count_bar_ruled,
    nodup_headings shown, fun others hothers => ?_⟩
  · rw [rectangle, length_ruled, hlength]
  · rw [render?, render?, hothers]

/-- Records with different names, a value on two lines and one that is null. -/
def unevenRecords : List OutputRecord :=
  [Record.ofList [("id", .text "a1"), ("note", .text "two\r\nlines")],
    Record.ofList [("note", .null), ("done", .boolean true)],
    Record.ofList [("unseen", .text "é")]]

theorem render?_rectangle_of_uneven :
    (∀ record ∈ unevenRecords.take 2, Printable record) ∧
      ∃ text, render? unevenRecords 2 = some text ∧ text.toList.splitOn '\n' =
        ["+---------+----+------------+------+".toList,
          "| (index) | id | note       | done |".toList,
          "+---------+----+------------+------+".toList,
          "| 0       | a1 | two  lines |      |".toList,
          "| 1       |    |            | true |".toList,
          "+---------+----+------------+------+".toList] := by
  have hprintable : ∀ record ∈ unevenRecords.take 2, Printable record := by decide +kernel
  obtain ⟨text, htext, hcut⟩ := (render?_rectangle unevenRecords 2 hprintable).1
  have hlines : text.toList.splitOn '\n' = rectangle (unevenRecords.take 2) := hcut
  exact ⟨hprintable, text, htext, hlines.trans rfl⟩

end Rowcast.Table
