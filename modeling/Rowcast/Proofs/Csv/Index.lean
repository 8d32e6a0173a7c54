import Mathlib.Data.List.DropRight
import Rowcast.Proofs.Csv.BlankLine

/-!
# Blank lines by index

`Breaks` cuts a run of carriage returns and line feeds into its line breaks, from left to right and
with each `\r\n` as one of them.  There is one way to do so, and `countBreaks` counts its parts
(`Breaks.length_eq`).

`blankLinesByIndex?` counts blank lines as a machine does that has the bytes in a row: it clamps
the offset, searches back for the last byte that is no line break, takes the run from there as a
slice and walks over it by an index.  It fails where an index or a slice does not lie in the bytes,
and where the walk does not end in as many rounds as the run has bytes.  It never fails, and its
count is `blankLinesAfter` (`blankLinesByIndex?_eq`).  A round passes one break
(`countBreaks_drop`), so the breaks counted and those behind the index are always the breaks of the
run (`countFrom?_eq`).
-/

namespace Rowcast.Csv

/-! ### The line breaks of a run -/

/-- The line breaks of a run, from left to right; a carriage return and a line feed right after it
are one. -/
inductive Breaks : Bytes → List Bytes → Prop
  | nil : Breaks [] []
  | pair {rest : Bytes} {parts : List Bytes} : Breaks rest parts →
      Breaks (carriageReturn :: lineFeed :: rest) ([carriageReturn, lineFeed] :: parts)
  | loneReturn {rest : Bytes} {parts : List Bytes} : rest.head? ≠ some lineFeed →
      Breaks rest parts → Breaks (carriageReturn :: rest) ([carriageReturn] :: parts)
  | feed {rest : Bytes} {parts : List Bytes} : Breaks rest parts →
      Breaks (lineFeed :: rest) ([lineFeed] :: parts)

theorem countBreaks_pair (rest : Bytes) :
    countBreaks (carriageReturn :: lineFeed :: rest) = countBreaks rest + 1 := by
  rw [countBreaks_cons_cons, if_pos ⟨rfl, rfl⟩, countBreaks_lineFeed_cons, Nat.zero_add]

theorem countBreaks_single {b : UInt8} {rest : Bytes}
    (h : ¬ (b = carriageReturn ∧ rest.head? = some lineFeed)) :
    countBreaks (b :: rest) = countBreaks rest + 1 := by
  cases rest with
  | nil => rfl
  | cons a rest =>
    have hpair : ¬ (b = carriageReturn ∧ a = lineFeed) := by
      rintro ⟨rfl, rfl⟩
      exact h ⟨rfl, rfl⟩
    rw [countBreaks_cons_cons, if_neg hpair, Nat.add_comm]

theorem Breaks.length_eq {run : Bytes} {parts : List Bytes} (h : Breaks run parts) :
    parts.length = countBreaks run := by
  induction h with
  | nil => rfl
  | pair _ ih => rw [List.length_cons, ih, countBreaks_pair]
  | loneReturn hrest _ ih =>
    rw [List.length_cons, ih, countBreaks_single fun hpair => hrest hpair.2]
  | feed _ ih => rw [List.length_cons, ih, countBreaks_lineFeed_cons]

theorem eq_or_eq_of_isBreak {b : UInt8} (h : isBreak b = true) :
    b = carriageReturn ∨ b = lineFeed := by
  simpa [isBreak] using h

/-- **A run can be cut into its line breaks.** -/
theorem exists_breaks {run : Bytes} (h : ∀ b ∈ run, isBreak b = true) :
    ∃ parts, Breaks run parts := by
  induction hlength : run.length using Nat.strong_induction_on generalizing run with
  | _ n ih =>
    cases run with
    | nil => exact ⟨[], .nil⟩
    | cons a rest =>
      obtain ⟨ha, hrest⟩ := List.forall_mem_cons.mp h
      rw [List.length_cons] at hlength
      obtain ⟨parts, hparts⟩ := ih rest.length (by omega) hrest rfl
      rcases eq_or_eq_of_isBreak ha with rfl | rfl
      · by_cases hfeed : rest.head? = some lineFeed
        · obtain ⟨rest, rfl⟩ := List.head?_eq_some_iff.mp hfeed
          rw [List.length_cons] at hlength
          obtain ⟨parts, hparts⟩ := ih rest.length (by omega) (List.forall_mem_cons.mp hrest).2 rfl
          exact ⟨_, .pair hparts⟩
        · exact ⟨_, .loneReturn hfeed hparts⟩
      · exact ⟨_, .feed hparts⟩

/-- **There is one way to cut it.** -/
theorem Breaks.unique {run : Bytes} {parts others : List Bytes} (h : Breaks run parts)
    (hothers : Breaks run others) : others = parts := by
  induction h generalizing others with
  | nil => cases hothers; rfl
  | pair _ ih =>
    cases hothers with
    | pair hrest => rw [ih hrest]
    | loneReturn hhead => exact absurd rfl hhead
  | loneReturn hhead _ ih =>
    cases hothers with
    | pair => exact absurd rfl hhead
    | loneReturn _ hrest => rw [ih hrest]
  | feed _ ih =>
    cases hothers with
    | feed hrest => rw [ih hrest]

/-! ### The count by index -/

/-- The bytes from one index up to another, if both are in order and none lies outside. -/
def slice? (bytes : Bytes) (first last : Nat) : Option Bytes :=
  if first ≤ last ∧ last ≤ bytes.length then some ((bytes.take last).drop first) else none

def lastSolid? (bytes : Bytes) : Option Nat :=
  (bytes.reverse.findIdx? fun b => !isBreak b).map fun i => bytes.length - 1 - i

/-- Walks over a run from an index on and counts breaks.  There is no count where the index is not
in the run, or where the walk takes more rounds than it may. -/
def countFrom? (run : Bytes) : Nat → Nat → Nat → Option Nat
  | rounds, index, breaks =>
    if index < run.length then
      match rounds with
      | 0 => none
      | rounds + 1 => do
        let b ← run[index]?
        let step := if b == carriageReturn && run[index + 1]? == some lineFeed then 2 else 1
        countFrom? run rounds (index + step) (breaks + 1)
    else some breaks

def blankLinesByIndex? (bytes : Bytes) (offset : Nat) : Option Nat := do
  let offset := min offset bytes.length
  let front ← slice? bytes 0 offset
  let start := ((lastSolid? front).map fun i => i + 1).getD 0
  let rest ← slice? bytes start bytes.length
  let run ← slice? bytes start (start + (rest.takeWhile isBreak).length)
  let breaks ← countFrom? run run.length 0 0
  return breaks - 1

/-! ### The walk -/

/-- The rest of a run behind a break: the step is two bytes for a pair and one byte otherwise. -/
theorem countBreaks_drop {run : Bytes} {index : Nat} {b : UInt8} (h : run[index]? = some b) :
    countBreaks (run.drop index) = countBreaks (run.drop (index +
      if b == carriageReturn && run[index + 1]? == some lineFeed then 2 else 1)) + 1 := by
  have hdrop : run.drop index = b :: run.drop (index + 1) := by
    obtain ⟨hindex, rfl⟩ := List.getElem?_eq_some_iff.mp h
    exact List.drop_eq_getElem_cons hindex
  have hhead : (run.drop (index + 1)).head? = run[index + 1]? := List.head?_drop
  rw [hdrop]
  split
  · next hpair =>
    obtain ⟨rfl, hfeed⟩ : b = carriageReturn ∧ run[index + 1]? = some lineFeed := by
      simpa using hpair
    obtain ⟨rest, hrest⟩ := List.head?_eq_some_iff.mp (hhead.trans hfeed)
    have hbehind : run.drop (index + 2) = rest := by
      rw [← List.tail_drop, hrest, List.tail_cons]
    rw [hrest, countBreaks_pair, hbehind]
  · next hpair =>
    refine countBreaks_single fun h => hpair ?_
    rw [hhead] at h
    simpa using h

/-- **The breaks counted and those behind the index are the breaks of the run,** and each round
moves the index on. -/
theorem countFrom?_eq {run : Bytes} {rounds index : Nat} (breaks : Nat)
    (h : run.length ≤ index + rounds) :
    countFrom? run rounds index breaks = some (breaks + countBreaks (run.drop index)) := by
  induction rounds generalizing index breaks with
  | zero =>
    have hend : ¬ index < run.length := by omega
    rw [countFrom?, if_neg hend, List.drop_of_length_le (by omega)]
    rfl
  | succ rounds ih =>
    rw [countFrom?]
    split
    · next hindex =>
      have hbyte : run[index]? = some run[index] := List.getElem?_eq_getElem hindex
      rw [countBreaks_drop hbyte, hbyte, Option.bind_eq_bind, Option.bind_some]
      dsimp only
      rw [ih]
      · congr 1
        omega
      · split <;> omega
    · rw [List.drop_of_length_le (by omega)]
      rfl

/-! ### The run -/

theorem length_dropWhile (bytes : Bytes) :
    (bytes.dropWhile isBreak).length =
      ((bytes.findIdx? fun b => !isBreak b).map fun i => bytes.length - 1 - i + 1).getD 0 := by
  induction bytes with
  | nil => rfl
  | cons b bytes ih =>
    rw [List.findIdx?_cons]
    cases hb : isBreak b with
    | false => simp [hb]
    | true =>
      rw [List.dropWhile_cons_of_pos hb, ih]
      simp only [Bool.not_true, Bool.false_eq_true, ↓reduceIte, Option.map_map, List.length_cons]
      congr 2
      funext i
      simp only [Function.comp_apply]
      omega

/-- The search back ends right behind what stands in front of the line breaks at the end. -/
theorem start_eq (front : Bytes) :
    ((lastSolid? front).map fun i => i + 1).getD 0 = (front.rdropWhile isBreak).length := by
  rw [List.rdropWhile, List.length_reverse, length_dropWhile, lastSolid?, Option.map_map,
    List.length_reverse]
  rfl

theorem rdropWhile_append_breaksAtEnd (front : Bytes) :
    front.rdropWhile isBreak ++ breaksAtEnd front = front := by
  rw [breaksAtEnd, List.rdropWhile, ← List.reverse_append, List.takeWhile_append_dropWhile,
    List.reverse_reverse]

theorem slice?_of_le {bytes : Bytes} {first last : Nat} (hfirst : first ≤ last)
    (hlast : last ≤ bytes.length) :
    slice? bytes first last = some ((bytes.take last).drop first) :=
  if_pos ⟨hfirst, hlast⟩

theorem slice?_append (before middle after : Bytes) :
    slice? (before ++ middle ++ after) before.length (before.length + middle.length) =
      some middle := by
  rw [slice?_of_le (by omega) (by simp), ← List.length_append, List.take_left,
    List.drop_left]

theorem isBreak_of_mem_breaksAtEnd {bytes : Bytes} {b : UInt8} (h : b ∈ breaksAtEnd bytes) :
    isBreak b = true :=
  List.mem_takeWhile_imp (List.mem_reverse.mp h)

/-- **Nothing lies outside, and the count is that of the run around the offset.** -/
theorem blankLinesByIndex?_eq (bytes : Bytes) (offset : Nat) :
    blankLinesByIndex? bytes offset = some (blankLinesAfter bytes offset) := by
  have hfront : slice? bytes 0 (min offset bytes.length) = some (bytes.take offset) := by
    rw [slice?_of_le (Nat.zero_le _) (Nat.min_le_right _ _), List.drop_zero,
      ← List.take_eq_take_min]
  -- the bytes up to the run, and those from there on, at whose front the run is
  obtain ⟨before, hbefore⟩ : ∃ before, before = (bytes.take offset).rdropWhile isBreak := ⟨_, rfl⟩
  obtain ⟨rest, hrest⟩ : ∃ rest, rest = breaksAtEnd (bytes.take offset) ++ bytes.drop offset :=
    ⟨_, rfl⟩
  have hbytes : before ++ rest = bytes := by
    rw [hbefore, hrest, ← List.append_assoc, rdropWhile_append_breaksAtEnd, List.take_append_drop]
  have hslice : slice? bytes before.length bytes.length = some rest := by
    have h := slice?_append before rest []
    rwa [List.append_nil, ← List.length_append, hbytes] at h
  have hrun : slice? bytes before.length (before.length + (rest.takeWhile isBreak).length) =
      some (rest.takeWhile isBreak) := by
    have h := slice?_append before (rest.takeWhile isBreak) (rest.dropWhile isBreak)
    rwa [List.append_assoc, List.takeWhile_append_dropWhile, hbytes] at h
  have hbreaks : rest.takeWhile isBreak = ((Cursor.front bytes).moveTo offset).breaks := by
    rw [hrest, List.takeWhile_append_of_pos fun _ => isBreak_of_mem_breaksAtEnd, breaks_moveTo]
  have hcount (run : Bytes) : countFrom? run run.length 0 0 = some (countBreaks run) := by
    rw [countFrom?_eq 0 (by omega), List.drop_zero, Nat.zero_add]
  rw [blankLinesByIndex?]
  simp only [hfront, start_eq, ← hbefore, hslice, hrun, hcount, Option.bind_eq_bind,
    Option.bind_some]
  rw [hbreaks]
  rfl

/-- **Where in the run the offset lies does not matter.**  In front of the run stands nothing or a
byte that is no line break, and so behind it.  From any place in the run, and from any behind it
where the input ends there, the blank lines are the line breaks of the run but one; found by index,
they are found in a walk that ends and with nothing that lies outside. -/
theorem blankLines_of_breaks {before run after : Bytes} (hbefore : SolidEnd before)
    (hrun : ∀ b ∈ run, b = carriageReturn ∨ b = lineFeed) (hafter : SolidFront after) :
    ∃ parts, Breaks run parts ∧ (∀ others, Breaks run others → others = parts) ∧
      ∀ offset, before.length ≤ offset → (after = [] ∨ offset ≤ before.length + run.length) →
        blankLinesAfter (before ++ run ++ after) offset = parts.length - 1 ∧
          blankLinesByIndex? (before ++ run ++ after) offset = some (parts.length - 1) := by
  have hbreak : ∀ b ∈ run, isBreak b = true := by
    intro b hb
    rcases hrun b hb with rfl | rfl <;> rfl
  obtain ⟨parts, hparts⟩ := exists_breaks hbreak
  refine ⟨parts, hparts, fun _ => hparts.unique, fun offset hle hge => ?_⟩
  have hcount : blankLinesAfter (before ++ run ++ after) offset = parts.length - 1 := by
    rw [blankLinesAfter_of_run hbefore hbreak hafter hle hge, hparts.length_eq]
  exact ⟨hcount, by rw [blankLinesByIndex?_eq, hcount]⟩

/-- Three breaks: from between the bytes of the second one there are two blank lines, and from far
behind the end as well if nothing follows. -/
theorem blankLines_of_breaks_inside_a_pair :
    SolidEnd [97] ∧ (∀ b ∈ [13, 13, 10, 10], b = carriageReturn ∨ b = lineFeed) ∧
      SolidFront [98] ∧ SolidFront [] ∧
      blankLinesByIndex? [97, 13, 13, 10, 10, 98] 3 = some 2 ∧
      blankLinesByIndex? [97, 13, 13, 10, 10] 1000 = some 2 := by
  have hbefore : SolidEnd [97] := by
    intro b hb
    obtain rfl := Option.some.inj hb
    rfl
  have hrun : ∀ b ∈ [13, 13, 10, 10], b = carriageReturn ∨ b = lineFeed := by
    simp [carriageReturn, lineFeed]
  have hafter : SolidFront [98] := by
    intro b hb
    obtain rfl := Option.some.inj hb
    rfl
  have hend : SolidFront [] := by
    intro b hb
    simp at hb
  have hparts : Breaks [13, 13, 10, 10] [[13], [13, 10], [10]] :=
    .loneReturn (by decide) (.pair (.feed .nil))
  obtain ⟨parts, -, hunique, hinside⟩ := blankLines_of_breaks hbefore hrun hafter
  obtain ⟨ends, -, hunique', hbehind⟩ := blankLines_of_breaks hbefore hrun hend
  obtain rfl := hunique _ hparts
  obtain rfl := hunique' _ hparts
  exact ⟨hbefore, hrun, hafter, hend, (hinside 3 (by decide) (.inr (by decide))).2,
    (hbehind 1000 (by decide) (.inl rfl)).2⟩

end Rowcast.Csv
