import Mathlib
import Rowcast.Proofs.Csv.Outcome

/-!
# Writing delimited text, and reading it back

A `Sheet` says how a table of texts is written: with or without a byte order mark, with one of the
three line terminators, with blank lines in front, after the header and after every row, and for
each field whether it stands in quotes.  A field may stand without quotes only if it is `Plain`, and
a row that is one empty field must be quoted, for without quotes it would be a blank line.

`read_bytes` is the round trip: reading what a sheet writes gives the records of its rows, and where
blank lines count, the records of its blank lines between them.

The proof follows the bytes of a sheet with the scanner.  Each piece is `Silent`, which means that
no line is complete while it lasts: the inside of a field (`run_plain`, `run_doubled`), a whole cell
(`run_cell`) and a whole row without its terminator (`run_cells`).  A terminator then completes
exactly one line, the row or a blank line (`completed_terminator_row`,
`completed_terminator_blank`), because only a `\n` after a `\r` is passed over.
-/

namespace Rowcast.Csv

open Scanner

/-! ### Sheets -/

/-- A text that may stand without quotes. -/
def Dialect.Plain (d : Dialect) (text : String) : Prop :=
  ∀ c ∈ text.toList, c.toNat ≠ d.delimiter.toNat ∧ c.toNat ≠ d.quote.toNat ∧ c ≠ '\r' ∧ c ≠ '\n'

instance (d : Dialect) (text : String) : Decidable (d.Plain text) :=
  List.decidableBAll _ text.toList

structure Cell (d : Dialect) where
  text : String
  quoted : Bool
  plain : quoted = false → d.Plain text

structure WrittenRow (d : Dialect) where
  cells : List (Cell d)
  cells_ne_nil : cells ≠ []
  quoted_of_single : ∀ cell, cells = [cell] → cell.text = "" → cell.quoted = true

inductive Terminator where
  | lf
  | crlf
  | cr
  deriving DecidableEq

structure Sheet (d : Dialect) where
  mark : Bool
  terminator : Terminator
  /-- How many blank lines come first. -/
  lead : Nat
  header : WrittenRow d
  /-- How many blank lines follow the header. -/
  gap : Nat
  /-- The rows, each with the number of blank lines after it. -/
  rows : List (WrittenRow d × Nat)

def Terminator.bytes : Terminator → Bytes
  | .lf => [lineFeed]
  | .crlf => [carriageReturn, lineFeed]
  | .cr => [carriageReturn]

def Terminator.blanks (t : Terminator) (n : Nat) : Bytes := (List.replicate n t.bytes).flatten

def Dialect.doubled (d : Dialect) (bytes : Bytes) : Bytes :=
  bytes.flatMap fun b => if b = d.quote then [b, b] else [b]

def Cell.bytes {d : Dialect} (cell : Cell d) : Bytes :=
  if cell.quoted then d.quote :: (d.doubled (Utf8.encode cell.text) ++ [d.quote])
  else Utf8.encode cell.text

def joined {d : Dialect} (cells : List (Cell d)) : Bytes :=
  [d.delimiter].intercalate (cells.map Cell.bytes)

namespace WrittenRow

variable {d : Dialect}

def texts (row : WrittenRow d) : List String := row.cells.map Cell.text

def bytes (row : WrittenRow d) : Bytes := joined row.cells

end WrittenRow

namespace Sheet

variable {d : Dialect}

/-- What is written after the byte order mark. -/
def body (sheet : Sheet d) : Bytes :=
  sheet.terminator.blanks sheet.lead ++ sheet.header.bytes ++ sheet.terminator.bytes ++
    sheet.terminator.blanks sheet.gap ++
    sheet.rows.flatMap fun row =>
      row.1.bytes ++ sheet.terminator.bytes ++ sheet.terminator.blanks row.2

def bytes (sheet : Sheet d) : Bytes :=
  (if sheet.mark then byteOrderMark else []) ++ sheet.body

def blankRecords (o : Options) (names : List String) (n : Nat) : List RawRecord :=
  if o.ignoreEmpty then [] else List.replicate n (o.blankRecord names)

/-- One record a row, and one a blank line after the header where blank lines count. -/
def records (o : Options) (sheet : Sheet d) : List RawRecord :=
  blankRecords o sheet.header.texts sheet.gap ++
    sheet.rows.flatMap fun row =>
      o.recordOf sheet.header.texts row.1.texts :: blankRecords o sheet.header.texts row.2

end Sheet

/-! ### Bytes in a row -/

section Run

variable {d : Dialect}

theorem step_skip {s : Scanner} {b : UInt8} {state : State}
    (h : d.transition b s.state = (state, .skip)) :
    s.step d b = { s with state, here := advance s.here b } := by
  unfold step
  rw [h]

theorem step_keep {s : Scanner} {b : UInt8} {state : State}
    (h : d.transition b s.state = (state, .keep)) :
    s.step d b = { s with state, here := advance s.here b, field := b :: s.field } := by
  unfold step
  rw [h]

theorem step_endField {s : Scanner} {b : UInt8} {state : State}
    (h : d.transition b s.state = (state, .endField)) :
    s.step d b =
      { s with
        state, here := advance s.here b, field := [], fields := s.field.reverse :: s.fields } := by
  unfold step
  rw [h]

theorem transition_plain {b : UInt8} (hdelimiter : b ≠ d.delimiter) (hquote : b ≠ d.quote)
    (hbreak : isBreak b = false) {state : State} (hstate : state ≠ .quoted ∧ state ≠ .quoteSeen) :
    d.transition b state = (.bare, .keep) := by
  have hd : ¬ (b == d.delimiter) = true := by simpa using hdelimiter
  have hq : ¬ (b == d.quote) = true := by simpa using hquote
  have hb : ¬ isBreak b = true := by rw [hbreak]; exact Bool.false_ne_true
  cases state with
  | outside =>
    rw [Dialect.transition, if_neg hb, Dialect.atFieldStart, if_neg hq, if_neg hd, if_neg hb]
  | fieldStart => rw [Dialect.transition, Dialect.atFieldStart, if_neg hq, if_neg hd, if_neg hb]
  | bare => rw [Dialect.transition, if_neg hd, if_neg hb]
  | quoted => exact absurd rfl hstate.1
  | quoteSeen => exact absurd rfl hstate.2

theorem transition_delimiter (hd : d.Proper) {state : State} (hstate : state ≠ .quoted) :
    d.transition d.delimiter state = (.fieldStart, .endField) := by
  have hq : ¬ (d.delimiter == d.quote) = true := by simpa using hd.differ
  have hdel : (d.delimiter == d.delimiter) = true := BEq.refl _
  have hb : ¬ isBreak d.delimiter = true := by rw [hd.delimiter_solid]; exact Bool.false_ne_true
  cases state with
  | outside => rw [Dialect.transition, if_neg hb, Dialect.atFieldStart, if_neg hq, if_pos hdel]
  | fieldStart => rw [Dialect.transition, Dialect.atFieldStart, if_neg hq, if_pos hdel]
  | bare => rw [Dialect.transition, if_pos hdel]
  | quoted => exact absurd rfl hstate
  | quoteSeen => rw [Dialect.transition, if_neg hq, if_pos hdel]

theorem transition_open (hd : d.Proper) {state : State}
    (hstate : state = .outside ∨ state = .fieldStart) :
    d.transition d.quote state = (.quoted, .skip) := by
  have hb : ¬ isBreak d.quote = true := by rw [hd.quote_solid]; exact Bool.false_ne_true
  have hq : (d.quote == d.quote) = true := BEq.refl _
  rcases hstate with rfl | rfl
  · rw [Dialect.transition, if_neg hb, Dialect.atFieldStart, if_pos hq]
  · rw [Dialect.transition, Dialect.atFieldStart, if_pos hq]

theorem transition_quoted {b : UInt8} (h : b ≠ d.quote) :
    d.transition b .quoted = (.quoted, .keep) := by
  rw [Dialect.transition, if_neg (by simpa using h)]

theorem transition_quoted_quote : d.transition d.quote .quoted = (.quoteSeen, .skip) := by
  rw [Dialect.transition, if_pos (BEq.refl _)]

theorem transition_quoteSeen_quote : d.transition d.quote .quoteSeen = (.quoted, .keep) := by
  rw [Dialect.transition, if_pos (BEq.refl _)]

/-- No line is complete while these bytes last. -/
def Silent (d : Dialect) (s : Scanner) (bytes : Bytes) : Prop := ∀ last, s.completed d last bytes = []

theorem silent_nil (d : Dialect) (s : Scanner) : Silent d s [] := fun _ => rfl

theorem silent_cons {s : Scanner} {b : UInt8} {bytes : Bytes} (h : ∀ last, s.lineAt last b = none)
    (hrest : Silent d (s.step d b) bytes) : Silent d s (b :: bytes) := by
  intro last
  rw [completed, h last, hrest b]
  rfl

theorem silent_append {s : Scanner} {a b : Bytes} (ha : Silent d s a)
    (hb : Silent d (run d s a) b) : Silent d s (a ++ b) := by
  intro last
  rw [completed_append, ha last, hb]
  rfl

/-- Bytes without a meaning are content of a field without quotes. -/
theorem run_plain {bytes : Bytes}
    (h : ∀ b ∈ bytes, b ≠ d.delimiter ∧ b ≠ d.quote ∧ isBreak b = false) {s : Scanner}
    (hs : s.state ≠ .quoted ∧ s.state ≠ .quoteSeen) :
    Silent d s bytes ∧ (run d s bytes).field = bytes.reverse ++ s.field ∧
      (run d s bytes).fields = s.fields ∧
      (run d s bytes).state = if bytes = [] then s.state else .bare := by
  induction bytes generalizing s with
  | nil => exact ⟨silent_nil d s, rfl, rfl, rfl⟩
  | cons b bytes ih =>
    obtain ⟨hdel, hquote, hbreak⟩ := h b List.mem_cons_self
    have hstep := step_keep (transition_plain hdel hquote hbreak hs)
    obtain ⟨hsilent, hfield, hfields, hstate⟩ :=
      ih (fun x hx => h x (List.mem_cons_of_mem b hx)) (s := s.step d b)
        (by rw [hstep]; exact ⟨nofun, nofun⟩)
    refine ⟨silent_cons (fun last => lineAt_solid s last hbreak) hsilent, ?_, ?_, ?_⟩
    · rw [run_cons, hfield, hstep, List.reverse_cons, List.append_assoc]
      rfl
    · rw [run_cons, hfields, hstep]
    · rw [run_cons, hstate, hstep, if_neg (List.cons_ne_nil b bytes)]
      split <;> rfl

/-- Inside quotes every byte is content, a quote if it is doubled. -/
theorem run_doubled (hd : d.Proper) (bytes : Bytes) {s : Scanner} (hs : s.state = .quoted) :
    Silent d s (d.doubled bytes) ∧ (run d s (d.doubled bytes)).field = bytes.reverse ++ s.field ∧
      (run d s (d.doubled bytes)).fields = s.fields ∧
      (run d s (d.doubled bytes)).state = .quoted := by
  induction bytes generalizing s with
  | nil => exact ⟨silent_nil d s, rfl, rfl, hs⟩
  | cons b bytes ih =>
    by_cases hb : b = d.quote
    · subst hb
      have hdoubled : d.doubled (d.quote :: bytes) = d.quote :: d.quote :: d.doubled bytes := by
        rw [Dialect.doubled, List.flatMap_cons, if_pos rfl]
        rfl
      have hfirst := step_skip (s := s) (b := d.quote) (by rw [hs]; exact transition_quoted_quote)
      have hsecond := step_keep (s := s.step d d.quote) (b := d.quote)
        (by rw [hfirst]; exact transition_quoteSeen_quote)
      obtain ⟨hsilent, hfield, hfields, hstate⟩ := ih (s := (s.step d d.quote).step d d.quote)
        (by rw [hsecond])
      rw [hdoubled, run_cons, run_cons]
      refine ⟨silent_cons (fun last => lineAt_quoted hs last _)
        (silent_cons (fun last => lineAt_solid _ last hd.quote_solid) hsilent), ?_, ?_, hstate⟩
      · rw [hfield, hsecond, hfirst, List.reverse_cons, List.append_assoc]
        rfl
      · rw [hfields, hsecond, hfirst]
    · have hdoubled : d.doubled (b :: bytes) = b :: d.doubled bytes := by
        rw [Dialect.doubled, List.flatMap_cons, if_neg hb]
        rfl
      have hstep := step_keep (s := s) (by rw [hs]; exact transition_quoted hb)
      obtain ⟨hsilent, hfield, hfields, hstate⟩ := ih (s := s.step d b) (by rw [hstep])
      rw [hdoubled, run_cons]
      refine ⟨silent_cons (fun last => lineAt_quoted hs last b) hsilent, ?_, ?_, hstate⟩
      · rw [hfield, hstep, List.reverse_cons, List.append_assoc]
        rfl
      · rw [hfields, hstep]

/-- What an ASCII byte among the bytes of a text stands for. -/
theorem mem_of_mem_encode {text : String} {b : UInt8} (hb : b.toNat < 0x80)
    (h : b ∈ Utf8.encode text) : ∃ c ∈ text.toList, c.toNat = b.toNat := by
  obtain ⟨c, hc, hbc⟩ := List.mem_flatMap.mp h
  refine ⟨c, hc, ?_⟩
  rcases Nat.lt_or_ge c.toNat 0x80 with hlt | hge
  · rw [Utf8.encode_ascii hlt, List.mem_singleton] at hbc
    rw [hbc, Utf8.toNat_ofNat_of_lt (by omega)]
  · have := Utf8.high_of_mem_encode hge hbc
    omega

theorem plain_bytes (hascii : d.delimiter.toNat < 0x80 ∧ d.quote.toNat < 0x80) {text : String}
    (h : d.Plain text) :
    ∀ b ∈ Utf8.encode text, b ≠ d.delimiter ∧ b ≠ d.quote ∧ isBreak b = false := by
  intro b hb
  refine ⟨?_, ?_, ?_⟩
  · rintro rfl
    obtain ⟨c, hc, hcb⟩ := mem_of_mem_encode hascii.1 hb
    exact (h c hc).1 hcb
  · rintro rfl
    obtain ⟨c, hc, hcb⟩ := mem_of_mem_encode hascii.2 hb
    exact (h c hc).2.1 hcb
  · cases hbreak : isBreak b with
    | false => rfl
    | true =>
      exfalso
      simp only [isBreak, Bool.or_eq_true, beq_iff_eq] at hbreak
      rcases hbreak with rfl | rfl
      · obtain ⟨c, hc, hcb⟩ := mem_of_mem_encode (by decide) hb
        exact (h c hc).2.2.1 (Char.toNat_inj.mp hcb)
      · obtain ⟨c, hc, hcb⟩ := mem_of_mem_encode (by decide) hb
        exact (h c hc).2.2.2 (Char.toNat_inj.mp hcb)

/-! ### Cells and rows -/

/-- **A cell is read as its text.**  It is complete for the next delimiter, and for the end of the
row unless nothing has been written of the row. -/
theorem run_cell (hd : d.Proper) (hascii : d.delimiter.toNat < 0x80 ∧ d.quote.toNat < 0x80)
    (cell : Cell d) {s : Scanner} (hs : s.state = .outside ∨ s.state = .fieldStart)
    (hfield : s.field = []) :
    Silent d s cell.bytes ∧ (run d s cell.bytes).field.reverse = Utf8.encode cell.text ∧
      (run d s cell.bytes).fields = s.fields ∧ (run d s cell.bytes).state ≠ .quoted ∧
      ((run d s cell.bytes).state = .outside →
        s.state = .outside ∧ cell.quoted = false ∧ cell.text = "") := by
  cases hquoted : cell.quoted with
  | true =>
    have hbytes : cell.bytes = d.quote :: (d.doubled (Utf8.encode cell.text) ++ [d.quote]) := by
      rw [Cell.bytes, if_pos hquoted]
    have hopen := step_skip (s := s) (transition_open hd hs)
    obtain ⟨hsilent, hinner, hfields, hstate⟩ :=
      run_doubled hd (Utf8.encode cell.text) (s := s.step d d.quote) (by rw [hopen])
    have hclose := step_skip (b := d.quote)
      (s := run d (s.step d d.quote) (d.doubled (Utf8.encode cell.text)))
      (by rw [hstate]; exact transition_quoted_quote)
    rw [hbytes, run_cons, run_concat, hclose]
    refine ⟨?_, ?_, ?_, nofun, nofun⟩
    · refine silent_cons (fun last => lineAt_solid s last hd.quote_solid)
        (silent_append hsilent (silent_cons (fun last => lineAt_solid _ last hd.quote_solid) ?_))
      exact silent_nil d _
    · show (run d (s.step d d.quote) (d.doubled (Utf8.encode cell.text))).field.reverse = _
      rw [hinner, hopen]
      show ((Utf8.encode cell.text).reverse ++ s.field).reverse = _
      rw [hfield, List.append_nil, List.reverse_reverse]
    · show (run d (s.step d d.quote) (d.doubled (Utf8.encode cell.text))).fields = _
      rw [hfields, hopen]
  | false =>
    have hbytes : cell.bytes = Utf8.encode cell.text := by
      rw [Cell.bytes, if_neg (by rw [hquoted]; exact Bool.false_ne_true)]
    obtain ⟨hsilent, hinner, hfields, hstate⟩ :=
      run_plain (plain_bytes hascii (cell.plain hquoted)) (s := s)
        (by rcases hs with hs | hs <;> rw [hs] <;> exact ⟨nofun, nofun⟩)
    rw [hbytes]
    refine ⟨hsilent, ?_, hfields, ?_, ?_⟩
    · rw [hinner, hfield, List.append_nil, List.reverse_reverse]
    · rw [hstate]
      split
      · rcases hs with hs | hs <;> rw [hs] <;> exact nofun
      · exact nofun
    · intro hout
      rw [hstate] at hout
      split at hout
      · next hnil => exact ⟨hout, rfl, Utf8.eq_empty_of_encode hnil⟩
      · exact absurd hout nofun

/-- **A row is read as its texts**, and nothing of it is complete before its terminator. -/
theorem run_cells (hd : d.Proper) (hascii : d.delimiter.toNat < 0x80 ∧ d.quote.toNat < 0x80)
    (cell : Cell d) (cells : List (Cell d)) {s : Scanner}
    (hs : (s.state = .outside ∧ (cells = [] → cell.text = "" → cell.quoted = true)) ∨
      s.state = .fieldStart) (hfield : s.field = []) :
    Silent d s (joined (cell :: cells)) ∧ (run d s (joined (cell :: cells))).state.endsRow = true ∧
      ((run d s (joined (cell :: cells))).field.reverse ::
        (run d s (joined (cell :: cells))).fields).reverse =
      s.fields.reverse ++ (cell :: cells).map fun c => Utf8.encode c.text := by
  induction cells generalizing cell s with
  | nil =>
    obtain ⟨hsilent, hinner, hfields, hquoted, hout⟩ :=
      run_cell hd hascii cell (hs.imp And.left id) hfield
    have hjoined : joined [cell] = cell.bytes := List.intercalate_singleton
    rw [hjoined]
    refine ⟨hsilent, ?_, ?_⟩
    · cases hstate : (run d s cell.bytes).state with
      | outside =>
        obtain ⟨hstart, hbare, hempty⟩ := hout hstate
        rcases hs with ⟨_, hs⟩ | hs
        · rw [hs rfl hempty] at hbare
          exact absurd hbare.symm Bool.false_ne_true
        · rw [hs] at hstart
          exact absurd hstart nofun
      | quoted => exact absurd hstate hquoted
      | fieldStart | bare | quoteSeen => rfl
    · rw [hinner, hfields, List.reverse_cons]
      rfl
  | cons next cells ih =>
    obtain ⟨hsilent, hinner, hfields, hquoted, hout⟩ :=
      run_cell hd hascii cell (hs.imp And.left id) hfield
    have hjoined : joined (cell :: next :: cells) =
        cell.bytes ++ (d.delimiter :: joined (next :: cells)) := by
      rw [joined, List.map_cons, List.map_cons, List.intercalate_cons_cons, List.append_assoc]
      rfl
    have hstep := step_endField (s := run d s cell.bytes) (transition_delimiter hd hquoted)
    obtain ⟨hsilent', hends, htexts⟩ := ih next (s := (run d s cell.bytes).step d d.delimiter)
      (Or.inr (by rw [hstep])) (by rw [hstep])
    rw [hjoined, run_append, run_cons]
    refine ⟨silent_append hsilent
      (silent_cons (fun last => lineAt_solid _ last hd.delimiter_solid) hsilent'), hends, ?_⟩
    rw [htexts, hstep]
    show ((run d s cell.bytes).field.reverse :: (run d s cell.bytes).fields).reverse ++ _ = _
    rw [hinner, hfields, List.reverse_cons, List.append_assoc]
    rfl

/-! ### Terminators -/

def Terminator.last : Terminator → UInt8
  | .lf | .crlf => lineFeed
  | .cr => carriageReturn

/-- Between the lines of a sheet: no row has begun, and the byte before is the end of a terminator,
or there is none. -/
structure Ready (t : Terminator) (s : Scanner) (last : UInt8) : Prop where
  state : s.state = .outside
  field : s.field = []
  fields : s.fields = []
  last : last = 0 ∨ last = t.last

theorem getLastD_append (last : UInt8) (a b : Bytes) :
    (a ++ b).getLastD last = b.getLastD (a.getLastD last) := by
  rw [List.getLastD_eq_getLast?, List.getLastD_eq_getLast?, List.getLastD_eq_getLast?,
    List.getLast?_append]
  cases b.getLast? with
  | none => rfl
  | some x => rfl

/-- **A terminator completes the row before it.** -/
theorem completed_terminator_row (hd : d.Proper) (t : Terminator) {s : Scanner}
    (hs : s.state.endsRow = true) (last : UInt8) :
    (∃ stop, s.completed d last t.bytes = [.row (s.current stop)]) ∧
      Ready t (run d s t.bytes) (t.bytes.getLastD last) := by
  have hcr : isBreak carriageReturn = true := rfl
  have hlf : isBreak lineFeed = true := rfl
  cases t with
  | lf =>
    refine ⟨⟨advance s.here lineFeed, ?_⟩, ?_⟩
    · show (s.lineAt last lineFeed).toList ++ [] = _
      rw [lineAt_endsRow hs last hlf]
      rfl
    · show Ready _ (s.step d lineFeed) lineFeed
      rw [step_endsRow hd hs hlf]
      exact ⟨rfl, rfl, rfl, Or.inr rfl⟩
  | crlf =>
    have hstep := step_endsRow hd hs hcr
    refine ⟨⟨advance s.here carriageReturn, ?_⟩, ?_⟩
    · show (s.lineAt last carriageReturn).toList ++
        (((s.step d carriageReturn).lineAt carriageReturn lineFeed).toList ++ []) = _
      rw [lineAt_endsRow hs last hcr, hstep, lineAt_outside rfl _ hlf, if_pos ⟨rfl, rfl⟩]
      rfl
    · show Ready _ ((s.step d carriageReturn).step d lineFeed) lineFeed
      rw [hstep, step_outside rfl hlf]
      exact ⟨rfl, rfl, rfl, Or.inr rfl⟩
  | cr =>
    refine ⟨⟨advance s.here carriageReturn, ?_⟩, ?_⟩
    · show (s.lineAt last carriageReturn).toList ++ [] = _
      rw [lineAt_endsRow hs last hcr]
      rfl
    · show Ready _ (s.step d carriageReturn) carriageReturn
      rw [step_endsRow hd hs hcr]
      exact ⟨rfl, rfl, rfl, Or.inr rfl⟩

/-- **A terminator on its own is a blank line.** -/
theorem completed_terminator_blank {t : Terminator} {s : Scanner} {last : UInt8}
    (h : Ready t s last) :
    s.completed d last t.bytes = [.blank] ∧ Ready t (run d s t.bytes) (t.bytes.getLastD last) := by
  have hcr : isBreak carriageReturn = true := rfl
  have hlf : isBreak lineFeed = true := rfl
  cases t with
  | lf =>
    have hlast : ¬ (last = carriageReturn ∧ lineFeed = lineFeed) := by
      rintro ⟨rfl, -⟩
      exact absurd h.last (by decide)
    refine ⟨?_, ?_⟩
    · show (s.lineAt last lineFeed).toList ++ [] = _
      rw [lineAt_outside h.state last hlf, if_neg hlast]
      rfl
    · show Ready _ (s.step d lineFeed) lineFeed
      rw [step_outside h.state hlf]
      exact ⟨h.state, h.field, h.fields, Or.inr rfl⟩
  | crlf =>
    have hstep := step_outside (d := d) h.state hcr
    refine ⟨?_, ?_⟩
    · show (s.lineAt last carriageReturn).toList ++
        (((s.step d carriageReturn).lineAt carriageReturn lineFeed).toList ++ []) = _
      rw [lineAt_outside h.state last hcr, if_neg (fun h => absurd h.2 (by decide)), hstep,
        lineAt_outside (by exact h.state) _ hlf, if_pos ⟨rfl, rfl⟩]
      rfl
    · show Ready _ ((s.step d carriageReturn).step d lineFeed) lineFeed
      rw [hstep, step_outside (by exact h.state) hlf]
      exact ⟨h.state, h.field, h.fields, Or.inr rfl⟩
  | cr =>
    refine ⟨?_, ?_⟩
    · show (s.lineAt last carriageReturn).toList ++ [] = _
      rw [lineAt_outside h.state last hcr, if_neg (fun h => absurd h.2 (by decide))]
      rfl
    · show Ready _ (s.step d carriageReturn) carriageReturn
      rw [step_outside h.state hcr]
      exact ⟨h.state, h.field, h.fields, Or.inr rfl⟩

/-! ### Lines of a sheet -/

theorem completed_blanks {t : Terminator} (n : Nat) {s : Scanner} {last : UInt8}
    (h : Ready t s last) :
    s.completed d last (t.blanks n) = List.replicate n .blank ∧
      Ready t (run d s (t.blanks n)) ((t.blanks n).getLastD last) := by
  induction n generalizing s last with
  | zero => exact ⟨rfl, h⟩
  | succ n ih =>
    have hblanks : t.blanks (n + 1) = t.bytes ++ t.blanks n := by
      rw [Terminator.blanks, List.replicate_succ, List.flatten_cons]
      rfl
    obtain ⟨hline, hready⟩ := completed_terminator_blank (d := d) h
    obtain ⟨hlines, hready'⟩ := ih hready
    rw [hblanks, completed_append, run_append, getLastD_append, hline, hlines]
    exact ⟨rfl, hready'⟩

/-- A written row is one line. -/
theorem completed_row (hd : d.Proper) (hascii : d.delimiter.toNat < 0x80 ∧ d.quote.toNat < 0x80)
    {t : Terminator} (row : WrittenRow d) {s : Scanner} {last : UInt8} (h : Ready t s last) :
    (∃ r, s.completed d last (row.bytes ++ t.bytes) = [.row r] ∧
      r.fields = row.texts.map Utf8.encode) ∧
    Ready t (run d s (row.bytes ++ t.bytes)) ((row.bytes ++ t.bytes).getLastD last) := by
  obtain ⟨cells, hne, hsingle⟩ := row
  cases cells with
  | nil => exact absurd rfl hne
  | cons cell cells =>
    obtain ⟨hsilent, hends, htexts⟩ := run_cells hd hascii cell cells (s := s)
      (Or.inl ⟨h.state, fun hcells => hsingle cell (by rw [hcells])⟩) h.field
    obtain ⟨⟨stop, hline⟩, hready⟩ := completed_terminator_row hd t hends
      ((joined (cell :: cells)).getLastD last)
    refine ⟨⟨(run d s (joined (cell :: cells))).current stop, ?_, ?_⟩, ?_⟩
    · show s.completed d last (joined (cell :: cells) ++ t.bytes) = _
      rw [completed_append, hsilent last, hline]
      rfl
    · show ((run d s (joined (cell :: cells))).field.reverse ::
        (run d s (joined (cell :: cells))).fields).reverse = _
      rw [htexts, h.fields, WrittenRow.texts, List.map_map]
      rfl
    · show Ready t (run d s (joined (cell :: cells) ++ t.bytes))
        ((joined (cell :: cells) ++ t.bytes).getLastD last)
      rw [run_append, getLastD_append]
      exact hready

/-- A row that was written from texts is readable, and its texts are those. -/
theorem readable_of_fields {r : Row} {texts : List String} (h : r.fields = texts.map Utf8.encode) :
    r.Readable := by
  intro field hfield
  rw [h] at hfield
  obtain ⟨text, -, rfl⟩ := List.mem_map.mp hfield
  exact ⟨text, rfl⟩

theorem toText_fields {r : Row} {texts : List String} (h : r.fields = texts.map Utf8.encode) :
    r.fields.map Utf8.toText = texts := by
  have hid : Utf8.toText ∘ Utf8.encode = id := funext Utf8.toText_encode
  rw [h, List.map_map, hid, List.map_id]

theorem texts_of_fields {o : Options} (htrim : o.trim = false) {r : Row} {texts : List String}
    (h : r.fields = texts.map Utf8.encode) : o.texts r = texts := by
  rw [Options.texts, Options.trimmed, htrim]
  exact toText_fields h

/-- **The rows of a sheet are lines that give the records of these rows**, with their blank lines
between them. -/
theorem completed_rows (hd : d.Proper) (hascii : d.delimiter.toNat < 0x80 ∧ d.quote.toNat < 0x80)
    {t : Terminator} {o : Options} (htrim : o.trim = false) (names : List String)
    (rows : List (WrittenRow d × Nat)) {s : Scanner} {last : UInt8} (h : Ready t s last) :
    let bytes := rows.flatMap fun row => row.1.bytes ++ t.bytes ++ t.blanks row.2
    ∃ lines, s.completed d last bytes = lines ∧ AllReadable lines ∧
      o.records names lines =
        rows.flatMap (fun row => o.recordOf names row.1.texts :: Sheet.blankRecords o names row.2) ∧
      (run d s bytes).state = .outside := by
  induction rows generalizing s last with
  | nil => exact ⟨[], rfl, fun row hrow => by simp at hrow, o.records_nil names, h.state⟩
  | cons row rows ih =>
    obtain ⟨row, n⟩ := row
    obtain ⟨⟨r, hline, hfields⟩, hready⟩ := completed_row hd hascii row h
    obtain ⟨hblanks, hready⟩ := completed_blanks (d := d) n hready
    obtain ⟨lines, hrest, hread, hrecords, hstate⟩ := ih hready
    intro bytes
    have hbytes : bytes = row.bytes ++ t.bytes ++ t.blanks n ++
        rows.flatMap fun row => row.1.bytes ++ t.bytes ++ t.blanks row.2 := List.flatMap_cons
    refine ⟨[.row r] ++ List.replicate n .blank ++ lines, ?_, ?_, ?_, ?_⟩
    · rw [hbytes, completed_append, completed_append, hline, hblanks, run_append, getLastD_append,
        hrest]
    · exact (AllReadable.row (readable_of_fields hfields)).append (.blanks n) |>.append hread
    · rw [Options.records_append, Options.records_append, Options.records_row, records_blanks,
        texts_of_fields htrim hfields, hrecords, List.flatMap_cons]
      rfl
    · rw [hbytes, run_append, run_append]
      exact hstate

end Run

/-! ### Reading a sheet -/

section Reading

variable {o : Options}

theorem markLength_append (bytes : Bytes) :
    markLength (byteOrderMark ++ bytes) = byteOrderMark.length := by
  rw [markLength, if_pos]
  rw [List.isPrefixOf_iff_prefix]
  exact List.prefix_append _ _

/-- The lines of a sheet: blank lines, the header, and lines that give the records. -/
theorem lines_bytes (hd : o.dialect.Proper)
    (hascii : o.delimiter.toNat < 0x80 ∧ o.quote.toNat < 0x80) (htrim : o.trim = false)
    (sheet : Sheet o.dialect)
    (hmark : sheet.mark = true ∨ ¬ byteOrderMark.isPrefixOf sheet.body = true) :
    ∃ header body,
      linesCounted o.dialect sheet.bytes =
        List.replicate sheet.lead .blank ++ .row header :: body ∧
      header.fields = sheet.header.texts.map Utf8.encode ∧ AllReadable body ∧
      o.records sheet.header.texts body = sheet.records o := by
  have hdrop : sheet.bytes.drop (markLength sheet.bytes) = sheet.body := by
    rw [Sheet.bytes]
    split
    · rw [markLength_append, List.drop_left]
    · next h =>
      have hnone := hmark.resolve_left h
      rw [List.nil_append, markLength, if_neg hnone, List.drop_zero]
  have hbody : sheet.body = sheet.terminator.blanks sheet.lead ++
      (sheet.header.bytes ++ sheet.terminator.bytes ++ (sheet.terminator.blanks sheet.gap ++
        sheet.rows.flatMap fun row =>
          row.1.bytes ++ sheet.terminator.bytes ++ sheet.terminator.blanks row.2)) := by
    simp only [Sheet.body, List.append_assoc]
  have hready : Ready sheet.terminator (atFront sheet.bytes) 0 := ⟨rfl, rfl, rfl, Or.inl rfl⟩
  obtain ⟨hlead, hready⟩ := completed_blanks (d := o.dialect) sheet.lead hready
  obtain ⟨⟨header, hheader, hfields⟩, hready⟩ := completed_row hd hascii sheet.header hready
  obtain ⟨hgap, hready⟩ := completed_blanks (d := o.dialect) sheet.gap hready
  obtain ⟨body, hlines, hread, hrecords, hstate⟩ :=
    completed_rows hd hascii htrim sheet.header.texts sheet.rows hready
  have hend : (atEnd o.dialect sheet.bytes).state = .outside := by
    rw [atEnd, hdrop, hbody, run_append, run_append, run_append]
    exact hstate
  refine ⟨header, List.replicate sheet.gap .blank ++ body, ?_, hfields, ?_, ?_⟩
  · rw [linesCounted_of_outside hend, lines_of_outside hend, hdrop, hbody, completed_append,
      completed_append, hlead, hheader, completed_append, hgap, hlines]
    rfl
  · exact (AllReadable.blanks sheet.gap).append hread
  · rw [Options.records_append, records_blanks, hrecords]
    rfl

/-- **Reading undoes writing**, whatever the texts hold and however many blank lines stand between
the rows. -/
theorem read_bytes (hd : o.dialect.Proper)
    (hascii : o.delimiter.toNat < 0x80 ∧ o.quote.toNat < 0x80) (htrim : o.trim = false)
    (sheet : Sheet o.dialect)
    (hmark : sheet.mark = true ∨ ¬ byteOrderMark.isPrefixOf sheet.body = true) :
    read o sheet.bytes = .ok (sheet.records o) := by
  obtain ⟨header, body, hlines, hfields, hbody, hrecords⟩ :=
    lines_bytes hd hascii htrim sheet hmark
  have hnames : o.namesOf header = sheet.header.texts := by
    rw [Options.namesOf, Options.trimmed, htrim]
    exact toText_fields hfields
  rw [read_of_readWatched (readWatched_ok hd hlines (readable_of_fields hfields) hbody _ _), hnames,
    hrecords]

/-- A header with a quoted name between blank lines, then a short row whose only text is a quote and
a line break, and a row that is too long with blank lines after it. -/
theorem read_bytes_with_blank_lines :
    let o : Options := ⟨44, 34, false, false, false⟩
    let bare (text : String) (h : o.dialect.Plain text) : Cell o.dialect := ⟨text, false, fun _ => h⟩
    let quoted (text : String) : Cell o.dialect := ⟨text, true, nofun⟩
    let sheet : Sheet o.dialect :=
      { mark := true
        terminator := .crlf
        lead := 1
        header := ⟨[bare "a" (by decide), quoted "b"], nofun, fun _ h => nomatch (List.cons.inj h).2⟩
        gap := 1
        rows := [
          (⟨[quoted "\"\r\n"], nofun, fun _ h _ => (List.cons.inj h).1 ▸ rfl⟩, 0),
          (⟨[bare "é" (by decide), bare "" (by decide), bare "z" (by decide)], nofun,
            fun _ h => nomatch (List.cons.inj h).2⟩, 2)] }
    sheet.bytes =
      [0xEF, 0xBB, 0xBF, 13, 10, 97, 44, 34, 98, 34, 13, 10, 13, 10, 34, 34, 34, 13, 10, 34, 13, 10,
        0xC3, 0xA9, 44, 44, 122, 13, 10, 13, 10, 13, 10] ∧
    read o sheet.bytes = .ok
      [.ofList [("a", some "")], .ofList [("a", some "\"\r\n")],
        .ofList [("a", some "é"), ("b", some "")], .ofList [("a", some "")],
        .ofList [("a", some "")]] := by
  intro o bare quoted sheet
  refine ⟨by cbv, ?_⟩
  rw [read_bytes ⟨by decide, by decide, by decide⟩ ⟨by decide, by decide⟩ rfl sheet (Or.inl rfl)]
  cbv

end Reading

end Rowcast.Csv
