import Rowcast.Csv.Reader
import Rowcast.Proofs.Csv.Place
import Rowcast.Proofs.Text.Utf8

/-!
# Reading lines

A reading takes the rows of the scanner and asks for blank lines by offset.  This file takes the
offsets out of it: `readLines` goes through the lines of the input instead, with a count of the
blank lines that are pending.

* `located_linesCounted`: the lines of an input are `Located`, which means that the offsets of their
  rows are in order and that the count at each of them is the number of blank lines after it.
* `readRows_eq_readLines`: **on located lines the two readings agree**, and with it
  `readWatched_of_names_ok` on every input with a header.
* `records_pushList`, `watched_pushList`: a record that is added is also shown, with the count so
  far.
-/

namespace Rowcast.Csv

/-! ### Texts of a row -/

def Row.Readable (row : Row) : Prop := ∀ field ∈ row.fields, Utf8.Valid field

theorem decodeFields_of_valid {fields : List Bytes} (h : ∀ field ∈ fields, Utf8.Valid field)
    (n : Nat) : decodeFields n fields = .ok (fields.map Utf8.toText) := by
  induction fields generalizing n with
  | nil => rfl
  | cons field fields ih =>
    rw [decodeFields, Utf8.decode_of_valid (h field List.mem_cons_self),
      ih (fun f hf => h f (List.mem_cons_of_mem field hf))]
    rfl

theorem valid_of_decodeFields {fields : List Bytes} {n : Nat} {texts : List String}
    (h : decodeFields n fields = .ok texts) : ∀ field ∈ fields, Utf8.Valid field := by
  induction fields generalizing n texts with
  | nil => intro field hfield; simp at hfield
  | cons field fields ih =>
    rw [decodeFields] at h
    split at h
    · simp at h
    · next text htext =>
      cases hrest : decodeFields (n + 1) fields with
      | error e => rw [hrest] at h; simp [Except.map] at h
      | ok rest =>
        intro f hf
        rcases List.mem_cons.mp hf with rfl | hf
        · exact Utf8.valid_of_decode htext
        · exact ih hrest f hf

theorem ascii_of_isAsciiBlank (b : UInt8) (h : isAsciiBlank b = true) : b.toNat < 0x80 := by
  simp only [isAsciiBlank, Bool.or_eq_true, beq_iff_eq] at h
  rcases h with (((rfl | rfl) | rfl) | rfl) | rfl <;> decide

namespace Options

def namesOf (o : Options) (header : Row) : List String :=
  o.trimmed (header.fields.map Utf8.toText)

def texts (o : Options) (row : Row) : List String :=
  o.trimmed
    ((if o.trim then row.fields.map (Text.strip isAsciiBlank) else row.fields).map Utf8.toText)

theorem names_of_readable (o : Options) {header : Row} (h : header.Readable) :
    o.names header = .ok (o.namesOf header) := by
  rw [names, Row.texts, decodeFields_of_valid h]
  rfl

theorem readable_of_names {o : Options} {header : Row} {names : List String}
    (h : o.names header = .ok names) : header.Readable := by
  cases hfields : decodeFields 0 header.fields with
  | ok texts => exact valid_of_decodeFields hfields
  | error e => rw [Options.names, Row.texts, hfields] at h; exact nomatch h

theorem valid_stripped (o : Options) (row : Row) :
    (∀ field ∈ if o.trim then row.fields.map (Text.strip isAsciiBlank) else row.fields,
      Utf8.Valid field) ↔ row.Readable := by
  split
  · rw [List.forall_mem_map]
    exact forall₂_congr fun field _ => Utf8.valid_strip ascii_of_isAsciiBlank field
  · rfl

theorem cells_of_readable (o : Options) {row : Row} (h : row.Readable) (number : Nat) :
    o.cells row number = .ok (o.texts row) := by
  rw [cells, Row.texts, decodeFields_of_valid ((o.valid_stripped row).mpr h)]
  rfl

theorem readable_of_cells {o : Options} {row : Row} {number : Nat} {texts : List String}
    (h : o.cells row number = .ok texts) : row.Readable := by
  rw [← o.valid_stripped]
  cases hfields : decodeFields 0
      (if o.trim then row.fields.map (Text.strip isAsciiBlank) else row.fields) with
  | ok texts => exact valid_of_decodeFields hfields
  | error e => rw [cells, Row.texts, hfields] at h; exact nomatch h

end Options

/-- A fault says where the row began that it is in. -/
theorem Row.place_of_texts {row : Row} {number : Nat} {fields : List Bytes} {fault : Fault}
    (h : row.texts number fields = .error fault) : fault.place = row.start := by
  unfold Row.texts at h
  cases hfields : decodeFields 0 fields with
  | ok texts => rw [hfields] at h; exact nomatch h
  | error e =>
    rw [hfields] at h
    injection h with h
    rw [← h]

namespace Options

theorem place_of_names {o : Options} {header : Row} {fault : Fault}
    (h : o.names header = .error fault) : fault.place = header.start := by
  unfold names at h
  cases htexts : header.texts 0 header.fields with
  | ok texts => rw [htexts] at h; simp [Except.map] at h
  | error e =>
    rw [htexts] at h
    injection h with h
    exact h ▸ Row.place_of_texts htexts

theorem place_of_cells {o : Options} {row : Row} {number : Nat} {fault : Fault}
    (h : o.cells row number = .error fault) : fault.place = row.start := by
  unfold cells at h
  cases htexts : row.texts number
      (if o.trim then row.fields.map (Text.strip isAsciiBlank) else row.fields) with
  | ok texts => rw [htexts] at h; simp [Except.map] at h
  | error e =>
    rw [htexts] at h
    injection h with h
    exact h ▸ Row.place_of_texts htexts

/-! ### Records of lines -/

def lineRecord (o : Options) (names : List String) : Line → RawRecord
  | .row row => o.recordOf names (o.texts row)
  | .blank => o.blankRecord names

/-- The lines that records are made of. -/
def kept (o : Options) (lines : List Line) : List Line :=
  if o.ignoreEmpty then lines.filter (fun l => !l.isBlank) else lines

theorem kept_append (o : Options) (front back : List Line) :
    o.kept (front ++ back) = o.kept front ++ o.kept back := by
  unfold kept
  split
  · exact List.filter_append ..
  · rfl

theorem kept_row (o : Options) (row : Row) : o.kept [.row row] = [.row row] := by
  unfold kept
  split <;> rfl

def records (o : Options) (names : List String) (lines : List Line) : List RawRecord :=
  (o.kept lines).map (o.lineRecord names)

theorem records_nil (o : Options) (names : List String) : o.records names [] = [] := by
  rw [records, kept]
  split <;> rfl

theorem records_append (o : Options) (names : List String) (front back : List Line) :
    o.records names (front ++ back) = o.records names front ++ o.records names back := by
  rw [records, kept_append, List.map_append, records, records]

theorem records_row (o : Options) (names : List String) (row : Row) :
    o.records names [.row row] = [o.recordOf names (o.texts row)] := by
  rw [records, kept_row]
  rfl

end Options

/-! ### Showing records -/

/-- Shows records one after the other, the first of them as number `n`. -/
def showAll {σ : Type} (watch : σ → Nat → RawRecord → σ) (watched : σ) (n : Nat)
    (records : List RawRecord) : σ :=
  (records.zipIdx n).foldl (fun watched call => watch watched call.2 call.1) watched

namespace Progress

variable {σ : Type} (watch : σ → Nat → RawRecord → σ)

def pushList (p : Progress σ) (records : List RawRecord) : Progress σ := records.foldl (push watch) p

theorem pushList_append (p : Progress σ) (a b : List RawRecord) :
    p.pushList watch (a ++ b) = (p.pushList watch a).pushList watch b := List.foldl_append

theorem pushAll_eq (record : RawRecord) (n : Nat) (p : Progress σ) :
    p.pushAll watch record n = p.pushList watch (List.replicate n record) := by
  induction n generalizing p with
  | zero => rfl
  | succ n ih => exact ih (p.push watch record)

theorem records_pushList (p : Progress σ) (records : List RawRecord) :
    (p.pushList watch records).records.toList = p.records.toList ++ records := by
  induction records generalizing p with
  | nil => exact (List.append_nil _).symm
  | cons record records ih =>
    show ((p.push watch record).pushList watch records).records.toList = _
    rw [ih, push, Array.toList_push, List.append_assoc]
    rfl

/-- **Each added record is shown once, in order, with its number.** -/
theorem watched_pushList (p : Progress σ) (records : List RawRecord) :
    (p.pushList watch records).watched =
      showAll watch p.watched (p.records.size + 1) records := by
  induction records generalizing p with
  | nil => rfl
  | cons record records ih =>
    show ((p.push watch record).pushList watch records).watched = _
    rw [ih, push, Array.size_push]
    rfl

end Progress

/-! ### Reading by lines -/

namespace Session

variable {σ : Type}

/-- Reads lines from row number `number` on, after `pending` blank lines whose records are still to
be added. -/
def readLines (s : Session σ) (number pending : Nat) (p : Progress σ) :
    List Line → Progress σ × Option Fault
  | [] => (p.pushList s.watch (s.options.records s.names (List.replicate pending .blank)), none)
  | .blank :: lines => s.readLines number (pending + 1) p lines
  | .row row :: lines =>
    match s.options.cells row number with
    | .error fault => (p, some fault)
    | .ok texts =>
      let p := p.pushList s.watch (s.options.records s.names (List.replicate pending .blank))
      s.readLines (number + 1) 0 (p.push s.watch (s.options.recordOf s.names texts)) lines

end Session

/-- After a row that stopped at `offset` and `pending` blank lines, these lines follow: rows stop in
order, and the blank lines counted after each row are those that follow it. -/
def Located (bytes : Bytes) (offset pending : Nat) : List Line → Prop
  | [] => blankLinesAfter bytes offset = pending
  | .blank :: lines => Located bytes offset (pending + 1) lines
  | .row row :: lines =>
    blankLinesAfter bytes offset = pending ∧ offset ≤ row.stop.byte ∧
      Located bytes row.stop.byte 0 lines

theorem records_blanks (o : Options) (names : List String) (n : Nat) :
    o.records names (List.replicate n .blank) =
      if o.ignoreEmpty then [] else List.replicate n (o.blankRecord names) := by
  unfold Options.records Options.kept
  split
  · rw [List.filter_replicate_of_neg (by exact nofun)]
    rfl
  · rw [List.map_replicate]
    rfl

theorem pushBlanks_eq {σ : Type} (s : Session σ) (here : Cursor) (p : Progress σ) :
    s.pushBlanks here p =
      p.pushList s.watch (s.options.records s.names (List.replicate here.blankLines .blank)) := by
  rw [records_blanks]
  unfold Session.pushBlanks
  split
  · rfl
  · rw [Progress.pushAll_eq]

/-- **Counting by offset is counting by lines.** -/
theorem readRows_eq_readLines {σ : Type} {s : Session σ} (hs : s.names ≠ []) {bytes : Bytes}
    {offset pending : Nat} {lines : List Line} (h : Located bytes offset pending lines)
    (number : Nat) (p : Progress σ) :
    s.readRows number ((Cursor.front bytes).moveTo offset) p (lines.filterMap Line.row?) =
      s.readLines number pending p lines := by
  induction lines generalizing offset pending number p with
  | nil =>
    have hcount : ((Cursor.front bytes).moveTo offset).blankLines = pending := h
    have hnames : ¬ s.names.isEmpty = true := by simpa using hs
    show (if s.names.isEmpty then p else s.pushBlanks _ p, none) = _
    rw [if_neg hnames, pushBlanks_eq, hcount]
    rfl
  | cons l lines ih =>
    cases l with
    | blank => exact ih h number p
    | row row =>
      obtain ⟨hcount, hle, hrest⟩ := h
      have hcount : ((Cursor.front bytes).moveTo offset).blankLines = pending := hcount
      show s.readRows number _ p (row :: lines.filterMap Line.row?) = _
      rw [Session.readRows, Session.readLines]
      cases hcells : s.options.cells row number with
      | error fault => rfl
      | ok texts =>
        show s.readRows (number + 1) (((Cursor.front bytes).moveTo offset).moveTo row.stop.byte)
          ((s.pushBlanks _ p).push s.watch _) (lines.filterMap Line.row?) = _
        rw [moveTo_moveTo bytes hle, pushBlanks_eq, hcount]
        exact ih hrest _ _

/-! ### The lines of the input -/

section Input

variable {d : Dialect} {bytes : Bytes}

theorem row_not_mem_blanks (n : Nat) (row : Row) :
    Line.row row ∉ List.replicate n .blank := by
  intro h
  exact Line.noConfusion (List.eq_of_mem_replicate h)

/-- A row among the lines counted is a row among the lines. -/
theorem lines_of_linesCounted {front back : List Line} {row : Row}
    (h : linesCounted d bytes = front ++ .row row :: back) :
    ∃ rest, lines d bytes = front ++ .row row :: rest ∧
      back = rest ++ List.replicate (overcount d bytes) .blank := by
  rcases List.append_eq_append_iff.mp h with ⟨a, -, hblanks⟩ | ⟨c, hlines, hc⟩
  · exfalso
    refine row_not_mem_blanks (overcount d bytes) row ?_
    rw [hblanks]
    exact List.mem_append_right a List.mem_cons_self
  · cases c with
    | nil =>
      exfalso
      refine row_not_mem_blanks (overcount d bytes) row ?_
      rw [List.nil_append] at hc
      rw [← hc]
      exact List.mem_cons_self
    | cons l rest =>
      obtain ⟨rfl, hback⟩ := List.cons.inj hc
      exact ⟨rest, hlines, hback⟩

theorem leadingBlanks_replicate_row (n : Nat) (row : Row) (back : List Line) :
    leadingBlanks (List.replicate n .blank ++ .row row :: back) = n := by
  induction n with
  | zero => rfl
  | succ n ih =>
    show leadingBlanks (List.replicate n .blank ++ .row row :: back) + 1 = n + 1
    rw [ih]

/-- **What follows a row is located by it.** -/
theorem located_linesCounted (hd : d.Proper) {front back : List Line} {row : Row} {pending : Nat}
    (h : linesCounted d bytes = front ++ .row row :: (List.replicate pending .blank ++ back)) :
    Located bytes row.stop.byte pending back := by
  induction back generalizing front row pending with
  | nil =>
    obtain ⟨rest, hlines, hback⟩ := lines_of_linesCounted h
    show blankLinesAfter bytes row.stop.byte = pending
    rw [blankLinesAfter_stop hd hlines, ← hback, List.append_nil, leadingBlanks_replicate]
  | cons l back ih =>
    cases l with
    | blank =>
      have h' : linesCounted d bytes =
          front ++ .row row :: (List.replicate (pending + 1) .blank ++ back) := by
        rw [h, List.replicate_succ', List.append_assoc]
        rfl
      exact ih h'
    | row row' =>
      obtain ⟨rest, hlines, hback⟩ := lines_of_linesCounted h
      have h' : linesCounted d bytes =
          (front ++ .row row :: List.replicate pending .blank) ++ .row row' :: back := by
        rw [h, List.append_assoc]
        rfl
      obtain ⟨rest', hlines', -⟩ := lines_of_linesCounted h'
      refine ⟨?_, ?_, ih h'⟩
      · rw [blankLinesAfter_stop hd hlines, ← hback, leadingBlanks_replicate_row]
      · rw [List.append_assoc] at hlines'
        exact stop_le_stop hd hlines'

theorem scan_eq_rows_counted (hd : d.Proper) (bytes : Bytes) :
    scan d bytes = (linesCounted d bytes).filterMap Line.row? := by
  rw [scan_eq_rows hd, linesCounted, List.filterMap_append, List.filterMap_replicate_of_none rfl,
    List.append_nil]

/-- The input has no row, or it has blank lines, the header, and lines after it. -/
theorem linesCounted_cases (d : Dialect) (bytes : Bytes) :
    (linesCounted d bytes).filterMap Line.row? = [] ∨
      ∃ k header body, linesCounted d bytes = List.replicate k .blank ++ .row header :: body := by
  generalize linesCounted d bytes = lines
  induction lines with
  | nil => exact Or.inl rfl
  | cons l lines ih =>
    cases l with
    | row header => exact Or.inr ⟨0, header, lines, rfl⟩
    | blank =>
      rcases ih with h | ⟨k, header, body, rfl⟩
      · exact Or.inl h
      · exact Or.inr ⟨k + 1, header, body, rfl⟩

variable {σ : Type}

theorem readWatched_of_no_row {o : Options} (hd : o.dialect.Proper)
    (h : (linesCounted o.dialect bytes).filterMap Line.row? = [])
    (watch : σ → Nat → RawRecord → σ) (watched : σ) :
    readWatched watch watched o bytes = (watched, .ok []) := by
  unfold readWatched
  rw [scan_eq_rows_counted hd, h]

theorem scan_of_linesCounted (hd : d.Proper) {k : Nat} {header : Row} {body : List Line}
    (h : linesCounted d bytes = List.replicate k .blank ++ .row header :: body) :
    scan d bytes = header :: body.filterMap Line.row? := by
  rw [scan_eq_rows_counted hd, h, List.filterMap_append, List.filterMap_replicate_of_none rfl]
  rfl

theorem readWatched_of_names_error {o : Options} (hd : o.dialect.Proper) {k : Nat} {header : Row}
    {body : List Line}
    (h : linesCounted o.dialect bytes = List.replicate k .blank ++ .row header :: body)
    {fault : Fault} (hnames : o.names header = .error fault)
    (watch : σ → Nat → RawRecord → σ) (watched : σ) :
    readWatched watch watched o bytes = (watched, .error fault) := by
  unfold readWatched
  rw [scan_of_linesCounted hd h]
  show (match o.names header with | .error fault => _ | .ok names => _) = _
  rw [hnames]

/-- A header has at least one name. -/
theorem names_ne_nil {o : Options} (hd : o.dialect.Proper) {k : Nat} {header : Row}
    {body : List Line}
    (h : linesCounted o.dialect bytes = List.replicate k .blank ++ .row header :: body)
    {names : List String} (hnames : o.names header = .ok names) : names ≠ [] := by
  obtain ⟨rest, hlines, -⟩ := lines_of_linesCounted h
  have hfields := fields_ne_nil hd hlines
  rw [o.names_of_readable (Options.readable_of_names hnames)] at hnames
  injection hnames with hnames
  rw [← hnames, Options.namesOf, Options.trimmed]
  split
  · simpa using hfields
  · simpa using hfields

def ending : Progress σ × Option Fault → σ × Except Fault (List RawRecord)
  | (p, some fault) => (p.watched, .error fault)
  | (p, none) => (p.watched, .ok p.records.toList)

/-- **A reading by offsets is a reading by lines.** -/
theorem readWatched_of_names_ok {o : Options} (hd : o.dialect.Proper) {k : Nat} {header : Row}
    {body : List Line}
    (h : linesCounted o.dialect bytes = List.replicate k .blank ++ .row header :: body)
    {names : List String} (hnames : o.names header = .ok names)
    (watch : σ → Nat → RawRecord → σ) (watched : σ) :
    readWatched watch watched o bytes =
      ending (Session.readLines ⟨o, names, watch⟩ 1 0 ⟨#[], watched⟩ body) := by
  rw [← readRows_eq_readLines (s := ⟨o, names, watch⟩) (names_ne_nil hd h hnames)
    (located_linesCounted hd h : Located bytes header.stop.byte 0 body)]
  unfold readWatched
  rw [scan_of_linesCounted hd h]
  show (match o.names header with | .error fault => _ | .ok names => _) = _
  rw [hnames]
  show (match Session.readRows ⟨o, names, watch⟩ 1 _ ⟨#[], watched⟩ _ with
    | (p, some fault) => _
    | (p, none) => _) = _
  rfl

end Input

end Rowcast.Csv
