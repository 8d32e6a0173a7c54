import Mathlib
import Rowcast.Proofs.Text.Span
import Rowcast.Settings.Environment

/-!
# What filling in values changes

`Cut` says how the search for references goes, without saying how one is found: from left to right,
where a reference starts it is taken as a whole, and anything else is passed over character by
character.  Every text has one cut, and `pieces` gives it (`cut_iff`).  Variables have no part in
it, so the same cut serves every environment and no value is ever searched
(`substitute_changes_references_only`).

A reference that is put between two texts is cut out as it stands, and the texts as they would be
alone (`pieces_append_written`), unless the text in front leaves a reference open: dollar sign and
brace with no closing brace behind them.  Then the closing brace of the later reference closes the
open one, whose name takes up all that stands between (`substitute_around_reference`).
-/

namespace Rowcast

namespace Environment

/-! ### The search -/

/-- What may stand between the braces of a reference. -/
def IsName (name : List Char) : Prop := name ≠ [] ∧ '\x7d' ∉ name

instance (name : List Char) : Decidable (IsName name) :=
  inferInstanceAs (Decidable (name ≠ [] ∧ '\x7d' ∉ name))

theorem reference?_written_append {name : List Char} (h : IsName name) (rest : List Char) :
    reference? ((Piece.reference name).written ++ rest) = some (name, rest) := by
  have hplain : ∀ c ∈ name, (c != '\x7d') = true := by
    intro c hc
    exact bne_iff_ne.mpr fun heq => h.2 (heq ▸ hc)
  obtain ⟨htake, hdrop⟩ := Text.span_append hplain (Text.stops_cons (c := '\x7d') rfl rest)
  have hwritten : (Piece.reference name).written ++ rest =
      '$' :: '\x7b' :: (name ++ '\x7d' :: rest) := by
    simp [Piece.written]
  rw [hwritten]
  simp only [reference?, htake, hdrop, h.1, if_false]

theorem isName_of_reference? {s name rest : List Char} (h : reference? s = some (name, rest)) :
    IsName name := by
  unfold reference? at h
  split at h
  · next s =>
    dsimp only at h
    split at h
    · cases h
    · split at h
      · cases h
      · next hne =>
        obtain ⟨rfl, -⟩ := Prod.mk.inj (Option.some.inj h)
        refine ⟨hne, fun hmem => ?_⟩
        have := List.mem_takeWhile_imp hmem
        simp at this
  · cases h

theorem reference?_eq_some_iff {s name rest : List Char} :
    reference? s = some (name, rest) ↔
      IsName name ∧ s = (Piece.reference name).written ++ rest := by
  constructor
  · exact fun h => ⟨isName_of_reference? h, eq_of_reference? h⟩
  · rintro ⟨hname, rfl⟩
    exact reference?_written_append hname rest

/-- A search through a text, from its start. -/
inductive Cut : List Char → List Piece → Prop
  | done : Cut [] []
  | reference {name rest : List Char} {parts : List Piece} (hname : IsName name)
      (hrest : Cut rest parts) :
      Cut ((Piece.reference name).written ++ rest) (.reference name :: parts)
  | char {c : Char} {rest : List Char} {parts : List Piece}
      (hnone : ∀ name after, IsName name → c :: rest ≠ (Piece.reference name).written ++ after)
      (hrest : Cut rest parts) : Cut (c :: rest) (.char c :: parts)

@[simp] theorem pieces_nil : pieces [] = [] := by
  rw [pieces]
  rfl

theorem pieces_written_append {name : List Char} (h : IsName name) (rest : List Char) :
    pieces ((Piece.reference name).written ++ rest) = .reference name :: pieces rest := by
  rw [pieces]
  split
  · next found after hfound =>
    rw [reference?_written_append h] at hfound
    obtain ⟨rfl, rfl⟩ := Prod.mk.inj (Option.some.inj hfound)
    rfl
  · next hnone =>
    rw [reference?_written_append h] at hnone
    cases hnone

theorem pieces_cons {c : Char} {rest : List Char} (h : reference? (c :: rest) = none) :
    pieces (c :: rest) = .char c :: pieces rest := by
  rw [pieces]
  split
  · next hfound =>
    rw [h] at hfound
    cases hfound
  · rfl

theorem reference?_eq_none_iff {s : List Char} :
    reference? s = none ↔
      ∀ name after, IsName name → s ≠ (Piece.reference name).written ++ after := by
  constructor
  · intro h name after hname heq
    rw [reference?_eq_some_iff.mpr ⟨hname, heq⟩] at h
    cases h
  · intro h
    rw [Option.eq_none_iff_forall_not_mem]
    rintro ⟨name, after⟩ hfound
    obtain ⟨hname, heq⟩ := reference?_eq_some_iff.mp hfound
    exact h name after hname heq

theorem cut_pieces (s : List Char) : Cut s (pieces s) := by
  fun_induction pieces s with
  | case1 s name rest h ih =>
    obtain ⟨hname, rfl⟩ := reference?_eq_some_iff.mp h
    exact .reference hname ih
  | case2 => exact .done
  | case3 c rest h ih => exact .char (reference?_eq_none_iff.mp h) ih

/-- **Every text has one cut.** -/
theorem cut_iff {s : List Char} {parts : List Piece} : Cut s parts ↔ pieces s = parts := by
  constructor
  · intro h
    induction h with
    | done => exact pieces_nil
    | reference hname _ ih => rw [pieces_written_append hname, ih]
    | char hnone _ ih => rw [pieces_cons (reference?_eq_none_iff.mpr hnone), ih]
  · rintro rfl
    exact cut_pieces s

theorem isName_of_mem_pieces {s name : List Char} (h : .reference name ∈ pieces s) :
    IsName name := by
  fun_induction pieces s with
  | case1 s found rest hfound ih =>
    rcases List.mem_cons.mp h with heq | hmem
    · cases heq
      exact (reference?_eq_some_iff.mp hfound).1
    · exact ih hmem
  | case2 => cases h
  | case3 c rest _ ih =>
    rcases List.mem_cons.mp h with heq | hmem
    · cases heq
    · exact ih hmem

/-! ### What is replaced -/

/-- The second text is the first with some of its references to set variables replaced by the values
of the variables. -/
inductive Replaced (environment : Environment) : List Char → List Char → Prop
  | done : Replaced environment [] []
  | kept {s t : List Char} (c : Char) (h : Replaced environment s t) :
      Replaced environment (c :: s) (c :: t)
  | filled {s t name : List Char} {value : String} (hname : IsName name)
      (hset : environment (String.ofList name) = some value) (h : Replaced environment s t) :
      Replaced environment ((Piece.reference name).written ++ s) (value.toList ++ t)

variable {environment : Environment}

theorem Replaced.append_left {s t : List Char} (h : Replaced environment s t) (u : List Char) :
    Replaced environment (u ++ s) (u ++ t) := by
  induction u with
  | nil => exact h
  | cons c u ih => exact .kept c ih

theorem filled_of_set {name : List Char} {value : String}
    (h : environment (String.ofList name) = some value) :
    (Piece.reference name).filled environment = value.toList := by
  rw [Piece.filled, h]

theorem filled_of_unset {name : List Char} (h : environment (String.ofList name) = none) :
    (Piece.reference name).filled environment = (Piece.reference name).written := by
  rw [Piece.filled, h]

theorem Cut.replaced {s : List Char} {parts : List Piece} (h : Cut s parts) :
    Replaced environment s (parts.flatMap (Piece.filled environment)) := by
  induction h with
  | done => exact .done
  | @reference name rest parts hname _ ih =>
    rw [List.flatMap_cons]
    cases hvalue : environment (String.ofList name) with
    | none =>
      rw [filled_of_unset hvalue]
      exact ih.append_left _
    | some value =>
      rw [filled_of_set hvalue]
      exact .filled hname hvalue ih
  | char _ _ ih => exact .kept _ ih

theorem toList_substitute (environment : Environment) (text : String) :
    (substitute environment text).toList =
      (pieces text.toList).flatMap (Piece.filled environment) :=
  String.toList_ofList

theorem substitute_of_unset {text : String}
    (h : ∀ name, .reference name ∈ pieces text.toList →
      environment (String.ofList name) = none) : substitute environment text = text := by
  have hpiece : ∀ piece ∈ pieces text.toList, piece.filled environment = piece.written := by
    intro piece hmem
    cases piece with
    | char c => rfl
    | reference name => exact filled_of_unset (h name hmem)
  rw [substitute, List.flatMap_congr hpiece, flatMap_written_pieces, String.ofList_toList]

/-- **Only references change.**  One cut of the text, which no variable has a part in, tells what
becomes of it: each reference of the cut to a variable that is set is replaced by the value, and
all else stays in its place. -/
theorem substitute_changes_references_only (text : String) :
    ∃ parts : List Piece, (∀ other, Cut text.toList other ↔ other = parts) ∧
      (∀ name, .reference name ∈ parts → IsName name) ∧
      parts.flatMap Piece.written = text.toList ∧
      ∀ environment : Environment,
        (substitute environment text).toList = parts.flatMap (Piece.filled environment) ∧
        Replaced environment text.toList (substitute environment text).toList ∧
        ((∀ name, .reference name ∈ parts → environment (String.ofList name) = none) →
          substitute environment text = text) := by
  refine ⟨pieces text.toList, fun other => cut_iff.trans eq_comm, fun _ => isName_of_mem_pieces,
    flatMap_written_pieces _, fun environment => ⟨toList_substitute _ _, ?_, substitute_of_unset⟩⟩
  rw [toList_substitute]
  exact (cut_pieces _).replaced

/-- The value of `A` has the form of a reference to `B`. -/
def chained : Environment := fun name =>
  if name = "A" then some "$\x7bB\x7d" else if name = "B" then some "b" else none

theorem substitute_changes_references_only_in_a_chain :
    substitute chained "$$\x7bA\x7d$\x7b\x7d$\x7bC\x7d$\x7bB" =
      "$$\x7bB\x7d$\x7b\x7d$\x7bC\x7d$\x7bB" ∧
    substitute empty "$$\x7bA\x7d$\x7b\x7d$\x7bC\x7d$\x7bB" =
      "$$\x7bA\x7d$\x7b\x7d$\x7bC\x7d$\x7bB" := by
  obtain ⟨parts, hcut, -, -, hall⟩ :=
    substitute_changes_references_only "$$\x7bA\x7d$\x7b\x7d$\x7bC\x7d$\x7bB"
  have hparts : [.char '$', .reference ['A'], .char '$', .char '\x7b', .char '\x7d',
      .reference ['C'], .char '$', .char '\x7b', .char 'B'] = parts := by
    rw [← hcut, cut_iff]
    cbv
  obtain ⟨hfilled, -, -⟩ := hall chained
  obtain ⟨-, -, hunset⟩ := hall empty
  refine ⟨?_, hunset fun _ _ => rfl⟩
  rw [← String.toList_inj, hfilled, ← hparts]
  rfl

/-! ### A reference between two texts -/

/-- A dollar sign and a brace stand in the text, and no closing brace behind them. -/
def LeavesOpen (s : List Char) : Prop :=
  ∃ front tail, s = front ++ '$' :: '\x7b' :: tail ∧ '\x7d' ∉ tail

theorem LeavesOpen.append_left {s : List Char} (h : LeavesOpen s) (u : List Char) :
    LeavesOpen (u ++ s) := by
  obtain ⟨front, tail, rfl, htail⟩ := h
  exact ⟨u ++ front, tail, (List.append_assoc ..).symm, htail⟩

/-- What is left open first. -/
theorem LeavesOpen.exists_first {s : List Char} (h : LeavesOpen s) :
    ∃ front tail, s = front ++ '$' :: '\x7b' :: tail ∧ '\x7d' ∉ tail ∧ ¬ LeavesOpen front := by
  obtain ⟨front, tail, rfl, htail⟩ := h
  induction hn : front.length using Nat.strong_induction_on generalizing front tail with
  | _ n ih =>
    by_cases hopen : LeavesOpen front
    · obtain ⟨shorter, between, rfl, hbetween⟩ := hopen
      have hmem : '\x7d' ∉ between ++ '$' :: '\x7b' :: tail := by
        simp [hbetween, htail]
      have hlength : shorter.length < n := by
        rw [← hn, List.length_append, List.length_cons]
        omega
      obtain ⟨first, rest, heq, hrest, hfirst⟩ := ih _ hlength shorter _ hmem rfl
      refine ⟨first, rest, ?_, hrest, hfirst⟩
      rw [← heq, List.append_assoc]
      rfl
    · exact ⟨front, tail, rfl, htail, hopen⟩

/-- What follows a text makes no reference in it that is not there already, unless one is left open
or the last dollar sign gets its brace. -/
theorem reference?_append {s rest : List Char} (hs : s ≠ []) (hclosed : ¬ LeavesOpen s)
    (hrest : rest.head? ≠ some '\x7b') (hnone : reference? s = none) :
    reference? (s ++ rest) = none := by
  rw [reference?_eq_none_iff] at hnone ⊢
  intro name after hname heq
  obtain ⟨c, s, rfl⟩ := List.exists_cons_of_ne_nil hs
  simp only [Piece.written, List.cons_append, List.append_assoc, List.cons.injEq,
    List.nil_append] at heq
  obtain ⟨rfl, heq⟩ := heq
  cases s with
  | nil =>
    rw [List.nil_append] at heq
    exact hrest (congrArg List.head? heq)
  | cons d s =>
    obtain ⟨rfl, hbehind⟩ := List.cons.inj heq
    have hmem : '\x7d' ∈ s := by
      by_contra hmem
      exact hclosed ⟨[], s, rfl, hmem⟩
    rcases List.append_eq_append_iff.mp hbehind with ⟨x, hx, -⟩ | ⟨x, hx, hafter⟩
    · exact hname.2 (hx ▸ List.mem_append_left x hmem)
    · cases x with
      | nil => exact hname.2 (by rwa [hx, List.append_nil] at hmem)
      | cons e x =>
        obtain ⟨rfl, -⟩ := List.cons.inj hafter
        refine hnone name x hname ?_
        rw [hx]
        simp [Piece.written]

/-- **The search does not look back**: behind a text that leaves nothing open it goes on as from the
start. -/
theorem pieces_append {s rest : List Char} (hclosed : ¬ LeavesOpen s)
    (hrest : rest.head? ≠ some '\x7b') : pieces (s ++ rest) = pieces s ++ pieces rest := by
  fun_induction pieces s with
  | case1 s name after h ih =>
    obtain ⟨hname, rfl⟩ := reference?_eq_some_iff.mp h
    rw [List.append_assoc, pieces_written_append hname,
      ih fun hopen => hclosed (hopen.append_left _)]
    rfl
  | case2 => rfl
  | case3 c after h ih =>
    have hnone := reference?_append (List.cons_ne_nil c after) hclosed hrest h
    rw [List.cons_append] at hnone ⊢
    rw [pieces_cons hnone, ih fun hopen => hclosed (hopen.append_left [c])]
    rfl

theorem pieces_append_written {front name : List Char} (hclosed : ¬ LeavesOpen front)
    (hname : IsName name) (rest : List Char) :
    pieces (front ++ ((Piece.reference name).written ++ rest)) =
      pieces front ++ .reference name :: pieces rest := by
  rw [pieces_append hclosed (by simp [Piece.written]), pieces_written_append hname]

/-- Without a closing brace there is no reference. -/
theorem pieces_of_not_mem {s : List Char} (h : '\x7d' ∉ s) : pieces s = s.map .char := by
  induction s with
  | nil => exact pieces_nil
  | cons c s ih =>
    have hnone : reference? (c :: s) = none := by
      refine reference?_eq_none_iff.mpr fun name after _ heq => h ?_
      rw [heq]
      simp [Piece.written]
    rw [pieces_cons hnone, ih fun hmem => h (List.mem_cons_of_mem c hmem), List.map_cons]

def written (name : String) : String := "$\x7b" ++ name ++ "\x7d"

theorem toList_written (name : String) :
    (written name).toList = (Piece.reference name.toList).written := by
  simp [written, Piece.written]

def valueOrReference (environment : Environment) (name : String) : String :=
  (environment name).getD (written name)

theorem toList_valueOrReference (environment : Environment) (name : String) :
    (valueOrReference environment name).toList =
      (Piece.reference name.toList).filled environment := by
  rw [valueOrReference, Piece.filled, String.ofList_toList]
  cases environment name with
  | none => exact toList_written name
  | some value => rfl

theorem substitute_append_written (environment : Environment) {front name : String}
    (hclosed : ¬ LeavesOpen front.toList) (hname : IsName name.toList) (rest : String) :
    substitute environment (front ++ written name ++ rest) =
      substitute environment front ++ valueOrReference environment name ++
        substitute environment rest := by
  rw [← String.toList_inj]
  simp only [String.toList_append, toList_substitute, toList_written, toList_valueOrReference,
    List.append_assoc, pieces_append_written hclosed hname, List.flatMap_append, List.flatMap_cons]

theorem substitute_append_open (environment : Environment) {front tail : String}
    (hclosed : ¬ LeavesOpen front.toList) (htail : '\x7d' ∉ tail.toList) :
    substitute environment (front ++ "$\x7b" ++ tail) =
      substitute environment front ++ "$\x7b" ++ tail := by
  rw [← String.toList_inj]
  have hopen : '\x7d' ∉ "$\x7b".toList ++ tail.toList := by simp [htail]
  have hchars (s : List Char) : (s.map Piece.char).flatMap (Piece.filled environment) = s := by
    rw [List.flatMap_map]
    exact List.flatMap_singleton' s
  simp only [String.toList_append, toList_substitute, List.append_assoc]
  rw [pieces_append hclosed (by simp), List.flatMap_append, pieces_of_not_mem hopen, hchars]

/-- **A reference to a set variable is replaced, whatever stands around it, unless the text in front
leaves a reference open.**  Then the name of the open reference runs on to the closing brace of the
later one, and it is the variable of that name that counts. -/
theorem substitute_around_reference {name value : String} (hname : IsName name.toList)
    (hset : environment name = some value) (front rest : String) :
    (¬ LeavesOpen front.toList →
      substitute environment (front ++ written name ++ rest) =
        substitute environment front ++ value ++ substitute environment rest) ∧
    (LeavesOpen front.toList → ∃ before tail, front = before ++ "$\x7b" ++ tail ∧
      ¬ LeavesOpen before.toList ∧ '\x7d' ∉ tail.toList ∧
      substitute environment (front ++ written name ++ rest) =
        substitute environment before ++
          valueOrReference environment (tail ++ "$\x7b" ++ name) ++
            substitute environment rest ∧
      (substitute environment (front ++ written name ++ rest) =
          substitute environment front ++ value ++ substitute environment rest ↔
        valueOrReference environment (tail ++ "$\x7b" ++ name) = "$\x7b" ++ tail ++ value)) := by
  constructor
  · intro hclosed
    rw [substitute_append_written environment hclosed hname, valueOrReference, hset]
    rfl
  · intro hopen
    obtain ⟨before, tail, hfront, htail, hclosed⟩ := hopen.exists_first
    have hfront : front = String.ofList before ++ "$\x7b" ++ String.ofList tail := by
      rw [← String.toList_inj, hfront]
      simp
    have hclosed : ¬ LeavesOpen (String.ofList before).toList := by
      rwa [String.toList_ofList]
    have htail : '\x7d' ∉ (String.ofList tail).toList := by
      rwa [String.toList_ofList]
    generalize String.ofList before = before at hfront hclosed
    generalize String.ofList tail = tail at hfront htail
    have hlong : IsName (tail ++ "$\x7b" ++ name).toList := by
      simp [IsName, htail, hname.2]
    have hwritten : front ++ written name ++ rest =
        before ++ written (tail ++ "$\x7b" ++ name) ++ rest := by
      simp only [hfront, written, String.append_assoc]
    have hresult := substitute_append_written environment hclosed hlong rest
    refine ⟨before, tail, hfront, hclosed, htail, hwritten ▸ hresult, ?_⟩
    rw [hwritten, hresult, hfront, substitute_append_open environment hclosed htail]
    simp only [← String.toList_inj, String.toList_append, List.append_assoc,
      List.append_cancel_left_eq]
    simp only [← List.append_assoc, List.append_cancel_right_eq]

def onlyA : Environment := fun name => if name = "A" then some "x" else none

theorem substitute_around_reference_behind_an_open_one :
    IsName "A".toList ∧ onlyA "A" = some "x" ∧
    ¬ LeavesOpen "$\x7b\x7d".toList ∧
    substitute onlyA ("$\x7b\x7d" ++ written "A" ++ "") = "$\x7b\x7dx" ∧
    LeavesOpen "# $\x7b\n".toList ∧
    substitute onlyA ("# $\x7b\n" ++ written "A" ++ "") ≠
      substitute onlyA "# $\x7b\n" ++ "x" ++ substitute onlyA "" := by
  have hname : IsName "A".toList := by decide
  have hclosed : ¬ LeavesOpen "$\x7b\x7d".toList := by
    rintro ⟨front, tail, heq, htail⟩
    rcases front with _ | ⟨a, _ | ⟨b, _ | ⟨c, front⟩⟩⟩ <;> simp at heq
    simp [← heq] at htail
  have hopen : LeavesOpen "# $\x7b\n".toList := ⟨['#', ' '], ['\n'], by decide, by decide⟩
  have hset : onlyA "A" = some "x" := rfl
  obtain ⟨hreplaced, -⟩ := substitute_around_reference hname hset "$\x7b\x7d" ""
  obtain ⟨-, hswallowed⟩ := substitute_around_reference hname hset "# $\x7b\n" ""
  obtain ⟨before, tail, -, -, -, -, hiff⟩ := hswallowed hopen
  refine ⟨hname, hset, hclosed, ?_, hopen, fun heq => ?_⟩
  · rw [hreplaced hclosed]
    cbv
  · have hunset : onlyA (tail ++ "$\x7b" ++ "A") = none := by
      refine if_neg fun heq => ?_
      have := congrArg String.length heq
      simp at this
    have hsame := hiff.mp heq
    rw [valueOrReference, hunset] at hsame
    simp [written, String.append_assoc, ← String.toList_inj] at hsame

end Environment

end Rowcast
