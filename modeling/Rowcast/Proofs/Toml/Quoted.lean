import Mathlib
import Rowcast.Toml.Lexeme

/-!
# Text between double quotes

A text that is put between double quotes as it stands, at the end of a line, is read back as it
stands exactly when it has no quote, no backslash and no control character but the tabulation
(`string?_of_verbatim`, `verbatim_of_string?`).

The second half is a count of characters.  Up to the closing quote a reader takes at least as many
characters as it gives, and as many only if it gives those that it takes (`Consumes`).  So an escape,
which takes two characters at least for one, is never made up for, and a quote within the text ends
the string too early.  Three quotes at the start are no way out, since three more have to come at the
end (`LongEnough`).
-/

namespace Rowcast.Toml

/-- Characters that stand for themselves between double quotes. -/
def isVerbatim (c : Char) : Bool := isPlain c && c != '"' && c != '\\'

theorem isVerbatim_iff {c : Char} :
    isVerbatim c = true ↔ isPlain c = true ∧ c ≠ '"' ∧ c ≠ '\\' := by
  simp [isVerbatim, and_assoc]

theorem withChar_eq_some_iff {c : Char} {reading : Reading (List Char)} {w rest : List Char} :
    withChar c reading = some (w, rest) ↔ ∃ t, w = c :: t ∧ reading = some (t, rest) := by
  cases reading with
  | none => simp [withChar]
  | some read =>
    obtain ⟨t, after⟩ := read
    simp only [withChar, Option.map_some, Option.some.injEq, Prod.mk.injEq]
    constructor
    · rintro ⟨rfl, rfl⟩
      exact ⟨t, rfl, rfl, rfl⟩
    · rintro ⟨_, rfl, rfl, rfl⟩
      exact ⟨rfl, rfl⟩

/-! ### Strings on one line -/

theorem basicRest_text_cons (c : Char) (s : List Char) :
    basicRest .text (c :: s) =
      if c = '"' then some ([], s)
      else if c = '\\' then basicRest .escaped s
      else if isPlain c then withChar c (basicRest .text s)
      else none := rfl

theorem basicRest_append {v : List Char} (h : ∀ c ∈ v, isVerbatim c = true) (rest : List Char) :
    basicRest .text (v ++ '"' :: rest) = some (v, rest) := by
  induction v with
  | nil => rfl
  | cons c v ih =>
    obtain ⟨hplain, hquote, hbackslash⟩ := isVerbatim_iff.mp (h c List.mem_cons_self)
    rw [List.cons_append, basicRest_text_cons, if_neg hquote, if_neg hbackslash, if_pos hplain,
      ih fun d hd => h d (List.mem_cons_of_mem c hd)]
    rfl

/-- What is given is no longer than what stands before the closing quote; in the text itself it is
the same if it is as long. -/
def Consumes (mode : Mode) (s : List Char) (reading : Reading (List Char)) : Prop :=
  ∀ w rest, reading = some (w, rest) → ∃ front, s = front ++ '"' :: rest ∧
    w.length ≤ front.length ∧
    (mode = .text → front.length ≤ w.length → w = front ∧ ∀ c ∈ front, isVerbatim c = true)

namespace Consumes

variable {mode next : Mode} {c x : Char} {s : List Char} {reading : Reading (List Char)}

theorem none : Consumes mode s .none := nofun

theorem close : Consumes mode ('"' :: s) (some ([], s)) := by
  intro w rest h
  obtain ⟨rfl, rfl⟩ := Prod.mk.inj (Option.some.inj h)
  exact ⟨[], rfl, le_rfl, fun _ _ => ⟨rfl, nofun⟩⟩

/-- A character is taken, and none is given. -/
theorem skip (h : Consumes next s reading) : Consumes mode (c :: s) reading := by
  intro w rest hread
  obtain ⟨front, rfl, hlength, -⟩ := h w rest hread
  refine ⟨c :: front, rfl, by rw [List.length_cons]; omega, fun _ hle => ?_⟩
  rw [List.length_cons] at hle
  omega

/-- A character is taken and one is given, in the text itself the same. -/
theorem give (h : Consumes .text s reading) (hsame : mode = .text → x = c ∧ isVerbatim c = true) :
    Consumes mode (c :: s) (withChar x reading) := by
  intro w rest hread
  obtain ⟨t, rfl, ht⟩ := withChar_eq_some_iff.mp hread
  obtain ⟨front, rfl, hlength, hequal⟩ := h t rest ht
  refine ⟨c :: front, rfl, Nat.succ_le_succ hlength, fun hmode hle => ?_⟩
  obtain ⟨rfl, hc⟩ := hsame hmode
  obtain ⟨rfl, hfront⟩ := hequal rfl (Nat.le_of_succ_le_succ hle)
  exact ⟨rfl, List.forall_mem_cons.mpr ⟨hc, hfront⟩⟩

end Consumes

theorem consumes_basicRest (mode : Mode) (s : List Char) :
    Consumes mode s (basicRest mode s) := by
  fun_induction basicRest mode s with
  | case1 => exact .none
  | case2 c s x hx ih => exact ih.give nofun
  | case3 c s n hn hx ih => exact ih.skip
  | case4 => exact .none
  | case5 => exact .none
  | case6 => exact .none
  | case7 left value c s d hd hleft x hx ih => exact ih.give nofun
  | case8 left value c s d hd hleft ih => exact ih.skip
  | case9 => exact .close
  | case10 mode s hescaped hcode hquote ih => exact ih.skip
  | case11 mode c s hescaped hcode hquote hbackslash hplain ih =>
    exact ih.give fun _ => ⟨rfl, isVerbatim_iff.mpr ⟨hplain, hquote, hbackslash⟩⟩
  | case12 => exact .none

/-! ### Strings of several lines -/

def LongEnough (s : List Char) (reading : Reading (List Char)) : Prop :=
  ∀ w rest, reading = some (w, rest) → w.length + 3 ≤ s.length

namespace LongEnough

variable {c x : Char} {s : List Char} {reading : Reading (List Char)}

theorem none : LongEnough s .none := nofun

theorem skip (h : LongEnough s reading) : LongEnough (c :: s) reading := by
  intro w rest hread
  have := h w rest hread
  rw [List.length_cons]
  omega

theorem give (h : LongEnough s reading) : LongEnough (c :: s) (withChar x reading) := by
  intro w rest hread
  obtain ⟨t, rfl, ht⟩ := withChar_eq_some_iff.mp hread
  exact Nat.succ_le_succ (h t rest ht)

theorem close {quote : Char} (h : twoQuotes quote s = true) :
    LongEnough (c :: s) (some (closingQuotes quote (s.drop 2))) := by
  intro w rest hread
  obtain ⟨a, b, t, rfl⟩ : ∃ a b t, s = a :: b :: t := by
    rcases s with _ | ⟨a, _ | ⟨b, t⟩⟩
    · simp [twoQuotes] at h
    · simp [twoQuotes] at h
    · exact ⟨a, b, t, rfl⟩
  have hclosing : (closingQuotes quote t).1.length ≤ t.length := by
    unfold closingQuotes
    split <;> grind
  rw [List.drop_succ_cons, List.drop_succ_cons, List.drop_zero] at hread
  rw [Option.some.inj hread] at hclosing
  exact Nat.add_le_add_right hclosing 3

end LongEnough

theorem longEnough_longBasicRest (mode : Mode) (s : List Char) :
    LongEnough s (longBasicRest mode s) := by
  -- In each case the reader fails, takes one character, takes one and gives one, or closes.
  fun_induction longBasicRest mode s <;>
    first
    | exact .none
    | (rename_i ih; exact ih.give)
    | (rename_i ih; exact ih.skip)
    | (refine .close ?_; simp_all)

theorem length_skipFirstBreak_le (s : List Char) : (skipFirstBreak s).length ≤ s.length := by
  unfold skipFirstBreak lineBreak?
  split <;> simp only [Option.getD_some, Option.getD_none, List.length_cons] <;> omega

/-! ### Strings -/

theorem string?_quote_cons (s : List Char) :
    string? ('"' :: s) =
      (if twoQuotes '"' s then longBasicRest .text (skipFirstBreak (s.drop 2))
        else basicRest .text s).map fun (cs, rest) => (String.ofList cs, rest) := rfl

theorem string?_of_verbatim {v : List Char} (h : ∀ c ∈ v, isVerbatim c = true) :
    string? ('"' :: (v ++ ['"', '\n'])) = some (String.ofList v, ['\n']) := by
  have hquotes : twoQuotes '"' (v ++ ['"', '\n']) = false := by
    cases v with
    | nil => decide
    | cons c v =>
      have hquote := (isVerbatim_iff.mp (h c List.mem_cons_self)).2.1
      simp [twoQuotes, hquote]
  rw [string?_quote_cons, hquotes, if_neg Bool.false_ne_true, basicRest_append h]
  rfl

theorem verbatim_of_string? {v rest : List Char}
    (h : string? ('"' :: (v ++ ['"', '\n'])) = some (String.ofList v, rest)) :
    ∀ c ∈ v, isVerbatim c = true := by
  rw [string?_quote_cons] at h
  obtain ⟨⟨w, after⟩, hread, heq⟩ := Option.map_eq_some_iff.mp h
  obtain ⟨hw, rfl⟩ := Prod.mk.inj heq
  obtain rfl := String.ofList_injective hw
  split at hread
  · have hlong := longEnough_longBasicRest _ _ _ _ hread
    have hskip := length_skipFirstBreak_le ((w ++ ['"', '\n']).drop 2)
    rw [List.length_drop, List.length_append] at hskip
    simp only [List.length_cons, List.length_nil] at hskip
    omega
  · obtain ⟨front, hfront, -, hequal⟩ := consumes_basicRest _ _ _ _ hread
    have hlength := congrArg List.length hfront
    simp only [List.length_append, List.length_cons, List.length_nil] at hlength
    have hafter : after ≠ [] := by
      rintro rfl
      have hlast := congrArg List.getLast? hfront
      simp at hlast
    have hpos := List.length_pos_iff.mpr hafter
    obtain ⟨heq, hall⟩ := hequal rfl (by omega)
    exact heq ▸ hall

end Rowcast.Toml
