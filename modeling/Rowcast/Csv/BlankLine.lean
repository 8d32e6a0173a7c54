import Rowcast.Csv.Scanner

/-!
# Blank lines

The scanner passes over blank lines.  Where they count, they are found again in the run of line
breaks that surrounds the place where a row stopped: the first break of the run ends the row, and
each further one is a blank line.  A carriage return and a line feed right after it are one break.
-/

namespace Rowcast.Csv

/-- How many line breaks a run of carriage returns and line feeds holds. -/
def countBreaks : Bytes → Nat
  | [] => 0
  | [_] => 1
  | a :: b :: rest =>
    if a == carriageReturn && b == lineFeed then countBreaks rest + 1
    else countBreaks (b :: rest) + 1

/-- A place in the input: its offset, the bytes before it, the nearest first, and those after it. -/
structure Cursor where
  offset : Nat
  before : Bytes
  after : Bytes
  deriving DecidableEq

namespace Cursor

def front (bytes : Bytes) : Cursor := ⟨0, [], bytes⟩

/-- Moves forward over some bytes, at most to the end. -/
def forward : Nat → Cursor → Cursor
  | n + 1, ⟨offset, before, b :: after⟩ => forward n ⟨offset + 1, b :: before, after⟩
  | _, cursor => cursor

def moveTo (cursor : Cursor) (offset : Nat) : Cursor := forward (offset - cursor.offset) cursor

theorem forward_eq (n : Nat) (cursor : Cursor) :
    forward n cursor =
      ⟨cursor.offset + min n cursor.after.length, (cursor.after.take n).reverse ++ cursor.before,
        cursor.after.drop n⟩ := by
  induction n generalizing cursor with
  | zero => simp [forward]
  | succ n ih =>
    obtain ⟨offset, before, after⟩ := cursor
    cases after with
    | nil => simp [forward]
    | cons b after =>
      simp only [forward, ih, List.length_cons, List.take_succ_cons, List.reverse_cons,
        List.append_assoc, List.singleton_append, List.drop_succ_cons, mk.injEq, and_self,
        and_true]
      omega

theorem moveTo_front (bytes : Bytes) (offset : Nat) :
    (front bytes).moveTo offset =
      ⟨min offset bytes.length, (bytes.take offset).reverse, bytes.drop offset⟩ := by
  simp [moveTo, front, forward_eq]

/-- The run of line breaks around a place, which may lie anywhere in the run. -/
def breaks (cursor : Cursor) : Bytes :=
  (cursor.before.takeWhile isBreak).reverse ++ cursor.after.takeWhile isBreak

/-- How many blank lines lie between the row that stopped at a place and what comes next. -/
def blankLines (cursor : Cursor) : Nat := countBreaks cursor.breaks - 1

end Cursor

def blankLinesAfter (bytes : Bytes) (offset : Nat) : Nat :=
  ((Cursor.front bytes).moveTo offset).blankLines

end Rowcast.Csv
