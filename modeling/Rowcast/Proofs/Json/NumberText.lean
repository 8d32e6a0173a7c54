import Mathlib
import Rowcast.Json.Number
import Rowcast.Proofs.Json.Grammar
import Rowcast.Proofs.Number.Decimal
import Rowcast.Proofs.Number.Shortest

/-!
# The text of a number

A finite number is written as a number of the grammar, and the decimal that it spells rounds to the
number and to no other (`exists_number`).  The sign of zero is lost on the way.

The three forms differ only in where the point stands.  Each spells the digits it is given, moved
to their power of ten (`unsigned_writtenOut`, `unsigned_scientific`); a safe integer spells itself.
-/

namespace Rowcast

namespace Binary64

/-- The same number, the negative zero apart: its sign is dropped. -/
def Finite.unsignZero (x : Finite) : Finite := if x.significand = 0 then .zero false else x

variable {x : Finite}

theorem unsignZero_of_ne (hx : x.significand ≠ 0) : x.unsignZero = x := if_neg hx

end Binary64

namespace Json

open Binary64

/-- The text spells the rational `q`, without a sign. -/
def SpellsUnsigned (t : List Char) (q : ℚ) : Prop :=
  ∃ n e, Unsigned t n e ∧ (n : ℚ) * 10 ^ e = q

theorem spellsUnsigned {whole fraction digits exponent : List Char} {e : Int} {q : ℚ}
    (hwhole : Whole whole) (hfraction : Fraction fraction digits) (hexponent : Exponent exponent e)
    (hq : (Decimal.ofDigits (whole ++ digits) : ℚ) * 10 ^ (e - digits.length) = q) :
    SpellsUnsigned (whole ++ (fraction ++ exponent)) q :=
  ⟨_, _, .mk hwhole hfraction hexponent, hq⟩

/-! ## Integers -/

theorem whole_toDigits (n : Nat) : Whole (Nat.toDigits 10 n) := by
  by_cases hn : n = 0
  · rw [hn]
    exact .zero
  · obtain ⟨first, rest, heq, hfirst⟩ := Decimal.exists_toDigits_eq_cons hn
    have hdigits : ∀ c ∈ first :: rest, c.isDigit = true := by
      rw [← heq]
      intro c hc
      exact Decimal.isDigit_of_mem_toDigits hc
    obtain ⟨hdigit, hrest⟩ := List.forall_mem_cons.mp hdigits
    rw [heq]
    exact .digits hdigit hfirst hrest

theorem spellsUnsigned_toDigits (n : Nat) : SpellsUnsigned (Nat.toDigits 10 n) n := by
  have h : SpellsUnsigned (Nat.toDigits 10 n ++ ([] ++ [])) n := by
    apply spellsUnsigned (whole_toDigits n) .absent .absent
    rw [List.append_nil, Decimal.ofDigits_toDigits]
    simp
  simpa using h

theorem magnitude_of_safeMagnitude? {x : Finite} {n : Nat} (h : safeMagnitude? x = some n) :
    x.magnitude = n := by
  simp only [safeMagnitude?, Option.ite_none_right_eq_some, Option.some.injEq] at h
  obtain ⟨⟨hdvd, -⟩, rfl⟩ := h
  rw [magnitude_eq_ratio, fraction,
    Nat.cast_div (Nat.dvd_of_mod_eq_zero hdvd) (by exact_mod_cast (ratio_pos x).ne')]

/-! ## Digits -/

theorem allDigits_zeros (n : Nat) : AllDigits (zeros n) := by
  intro c hc
  rw [List.eq_of_mem_replicate hc]
  rfl

theorem ofDigits_append_zeros (digits : List Char) (n : Nat) :
    Decimal.ofDigits (digits ++ zeros n) = Decimal.ofDigits digits * 10 ^ n := by
  rw [Decimal.ofDigits_append, zeros, Decimal.ofDigits_zeros, List.length_replicate, Nat.add_zero]

theorem ofDigits_zeros_append (n : Nat) (digits : List Char) :
    Decimal.ofDigits (zeros n ++ digits) = Decimal.ofDigits digits := by
  rw [Decimal.ofDigits_append, zeros, Decimal.ofDigits_zeros, Nat.zero_mul, Nat.zero_add]

variable {d : Digits} {q : ℚ}

theorem length_pos_of_spells (h : d.Spells q) : 0 < d.digits.length := by
  obtain ⟨first, rest, heq, -⟩ := h.first
  rw [heq]
  exact Nat.succ_pos _

/-- Digits that do not begin with a zero may stand before the point. -/
theorem whole_of_spells (h : d.Spells q) {before after more : List Char} (hne : before ≠ [])
    (hsplit : d.digits = before ++ after) (hmore : AllDigits more) : Whole (before ++ more) := by
  obtain ⟨first, rest, heq, hfirst⟩ := h.first
  cases before with
  | nil => exact absurd rfl hne
  | cons c before =>
    have hc : c = first := (List.cons.inj (hsplit.symm.trans heq)).1
    have hdigit : ∀ a ∈ c :: before, a.isDigit = true := by
      intro a ha
      exact h.digits a (hsplit ▸ List.mem_append_left _ ha)
    obtain ⟨hfirstDigit, hbefore⟩ := List.forall_mem_cons.mp hdigit
    exact .digits hfirstDigit (hc ▸ hfirst) (List.forall_mem_append.mpr ⟨hbefore, hmore⟩)

/-- The point stands behind the last digit: zeros fill up to it. -/
theorem spellsUnsigned_filled (h : d.Spells q) {e : Nat} (hexponent : d.exponent = e)
    (hlast : d.digits.length ≤ e + 1) :
    SpellsUnsigned (d.digits ++ zeros (e + 1 - d.digits.length) ++ ['.', '0']) q := by
  have hlength := length_pos_of_spells h
  have hwhole : Whole (d.digits ++ zeros (e + 1 - d.digits.length)) :=
    whole_of_spells h (List.ne_nil_of_length_pos hlength) (List.append_nil _).symm
      (allDigits_zeros _)
  have hfraction : Fraction ['.', '0'] ['0'] :=
    .present (List.cons_ne_nil _ _) (allDigits_zeros 1)
  have hzero : Decimal.ofDigits (d.digits ++ zeros (e + 1 - d.digits.length) ++ ['0']) =
      Decimal.ofDigits d.digits * 10 ^ (e + 1 - d.digits.length) * 10 := by
    have hone : ['0'] = zeros 1 := rfl
    rw [hone, ofDigits_append_zeros, ofDigits_append_zeros, pow_one]
  have hpower : d.exponent - (d.digits.length - 1 : Nat) = (e + 1 - d.digits.length : Nat) := by
    omega
  have hvalue := h.value
  rw [hpower, zpow_natCast] at hvalue
  have := spellsUnsigned hwhole hfraction .absent (q := q) (by
    rw [hzero, ← hvalue]
    push_cast
    simp)
  simpa using this

/-- The point stands between two digits. -/
theorem spellsUnsigned_split (h : d.Spells q) {e : Nat} (hexponent : d.exponent = e)
    (hlast : e + 1 < d.digits.length) :
    SpellsUnsigned (d.digits.take (e + 1) ++ '.' :: d.digits.drop (e + 1)) q := by
  have hne : d.digits.take (e + 1) ≠ [] := by
    apply List.ne_nil_of_length_pos
    rw [List.length_take]
    omega
  have hwhole : Whole (d.digits.take (e + 1)) := by
    have := whole_of_spells h hne (List.take_append_drop _ _).symm (allDigits_zeros 0)
    rwa [zeros, List.replicate_zero, List.append_nil] at this
  have hfraction : Fraction ('.' :: d.digits.drop (e + 1)) (d.digits.drop (e + 1)) := by
    apply Fraction.present
    · apply List.ne_nil_of_length_pos
      rw [List.length_drop]
      omega
    · exact fun c hc => h.digits c (List.mem_of_mem_drop hc)
  have hpower : (0 : Int) - (d.digits.drop (e + 1)).length =
      d.exponent - (d.digits.length - 1 : Nat) := by
    rw [List.length_drop]
    omega
  have := spellsUnsigned hwhole hfraction .absent (q := q) (by
    rw [List.take_append_drop, hpower]
    exact h.value)
  simpa using this

/-- The point stands before the first digit. -/
theorem spellsUnsigned_small (h : d.Spells q) {e : Nat} (hexponent : d.exponent = .negSucc e) :
    SpellsUnsigned ('0' :: '.' :: zeros e ++ d.digits) q := by
  have hlength := length_pos_of_spells h
  have hfraction : Fraction ('.' :: (zeros e ++ d.digits)) (zeros e ++ d.digits) := by
    apply Fraction.present
    · apply List.append_ne_nil_of_right_ne_nil
      exact List.ne_nil_of_length_pos hlength
    · exact List.forall_mem_append.mpr ⟨allDigits_zeros e, h.digits⟩
  have hpower : (0 : Int) - (zeros e ++ d.digits).length =
      d.exponent - (d.digits.length - 1 : Nat) := by
    rw [List.length_append, zeros, List.length_replicate]
    omega
  have hdigits : Decimal.ofDigits (['0'] ++ (zeros e ++ d.digits)) = Decimal.ofDigits d.digits :=
    ofDigits_zeros_append (e + 1) d.digits
  have := spellsUnsigned .zero hfraction .absent (q := q) (by
    rw [hdigits, hpower]
    exact h.value)
  simpa using this

theorem spellsUnsigned_writtenOut (h : d.Spells q) : SpellsUnsigned (writtenOut d) q := by
  unfold writtenOut
  split
  · next e hexponent =>
    split
    · next hlast => exact spellsUnsigned_filled h hexponent hlast
    · next hlast => exact spellsUnsigned_split h hexponent (Nat.lt_of_not_le hlast)
  · next e hexponent => exact spellsUnsigned_small h hexponent

theorem exponent_of_int (e : Int) :
    Exponent ('e' :: (if e < 0 then '-' else '+') :: Nat.toDigits 10 e.natAbs) e := by
  have hne : Nat.toDigits 10 e.natAbs ≠ [] := List.ne_nil_of_length_pos Nat.length_toDigits_pos
  have hdigits : AllDigits (Nat.toDigits 10 e.natAbs) :=
    fun c hc => Decimal.isDigit_of_mem_toDigits hc
  split
  · next hneg =>
    have := Exponent.minus (.inl rfl : 'e' = 'e' ∨ 'e' = 'E') hne hdigits
    rw [Decimal.ofDigits_toDigits] at this
    have heq : -(e.natAbs : Int) = e := by omega
    rwa [heq] at this
  · next hneg =>
    have := Exponent.plus (.inl rfl : 'e' = 'e' ∨ 'e' = 'E') hne hdigits
    rw [Decimal.ofDigits_toDigits] at this
    have heq : (e.natAbs : Int) = e := by omega
    rwa [heq] at this

theorem spellsUnsigned_scientific (h : d.Spells q) : SpellsUnsigned (scientific d) q := by
  obtain ⟨first, rest, heq, hfirst⟩ := h.first
  have hexponent := exponent_of_int d.exponent
  have hdigit : ∀ c ∈ first :: rest, c.isDigit = true := heq ▸ h.digits
  obtain ⟨hfirstDigit, hrest⟩ := List.forall_mem_cons.mp hdigit
  have hwhole : Whole [first] := .digits hfirstDigit hfirst (List.forall_mem_nil _)
  have hvalue := h.value
  unfold scientific
  rw [heq] at hvalue ⊢
  cases rest with
  | nil => exact spellsUnsigned hwhole .absent hexponent hvalue
  | cons c rest =>
    have hfraction : Fraction ('.' :: c :: rest) (c :: rest) :=
      .present (List.cons_ne_nil _ _) hrest
    exact spellsUnsigned hwhole hfraction hexponent hvalue

theorem spellsUnsigned_fractionText (h : d.Spells q) : SpellsUnsigned (fractionText d) q := by
  unfold fractionText
  split
  · exact spellsUnsigned_writtenOut h
  · exact spellsUnsigned_scientific h

/-! ## Numbers -/

theorem covers_magnitude {x : Finite} (hx : x.significand ≠ 0) : x.Covers x.magnitude := by
  have hbelow := gapBelow_pos x
  have habove := gapAbove_pos x
  have hlow : x.low < x.magnitude := by
    rw [low_eq hx]
    linarith
  have hhigh : x.magnitude < x.high := by
    rw [high_eq]
    linarith
  exact ⟨hlow.le, hhigh.le, fun _ => ⟨hlow, hhigh⟩⟩

def magnitudeText (x : Finite) : List Char :=
  match safeMagnitude? x with
  | some n => Nat.toDigits 10 n
  | none => fractionText x.shortest

theorem exists_spellsUnsigned {x : Finite} (hx : x.significand ≠ 0) :
    ∃ q, SpellsUnsigned (magnitudeText x) q ∧ x.Covers q := by
  unfold magnitudeText
  split
  · next n hsafe =>
    refine ⟨x.magnitude, ?_, covers_magnitude hx⟩
    rw [magnitude_of_safeMagnitude? hsafe]
    exact spellsUnsigned_toDigits n
  · obtain ⟨q, hspells, hcovers⟩ := spells_shortest hx
    exact ⟨q, spellsUnsigned_fractionText hspells, hcovers⟩

theorem magnitude_ne_zero {x : Finite} (hx : x.significand ≠ 0) : x.magnitude ≠ 0 :=
  ((covers_magnitude hx).pos hx).ne'

theorem numberText_of_ne {x : Finite} (hx : x.significand ≠ 0) :
    numberText (.finite x) = if x.negative then '-' :: magnitudeText x else magnitudeText x := by
  simp only [numberText, magnitudeText]
  cases hsafe : safeMagnitude? x with
  | none => rfl
  | some n =>
    have hn : n ≠ 0 := by
      rintro rfl
      have := magnitude_of_safeMagnitude? hsafe
      exact magnitude_ne_zero hx (by simpa using this)
    simp [hn]

theorem numberText_of_eq {x : Finite} (hx : x.significand = 0) :
    numberText (.finite x) = ['0'] := by
  have hratio : x.ratio.1 = 0 := by
    unfold Finite.ratio
    cases x.exponent <;> simp [hx]
  have hsafe : safeMagnitude? x = some 0 := by
    simp [safeMagnitude?, hratio]
  simp [numberText, hsafe]

theorem isNearest_zero {x : Finite} (hx : x.significand = 0) {q : ℚ} (hq : q = 0) :
    IsNearest q x := by
  have hzero := value_of_significand_zero hx
  intro y hy
  rw [hzero] at hy ⊢
  rw [hq]
  exact .inl (by simpa using hy)

/-- **A finite number is written as a decimal that rounds to it.**  The decimal is as near to no
other number, and reading it gives the number back; a zero loses its sign. -/
theorem exists_number (x : Finite) :
    ∃ d, Number (numberText (.finite x)) d ∧ IsNearest d.value x ∧
      d.toBinary64 = .finite x.unsignZero := by
  by_cases hx : x.significand = 0
  · have hnumber : Number ['0'] ⟨false, 0, 0⟩ := .positive (.mk .zero .absent .absent)
    refine ⟨_, (numberText_of_eq hx).symm ▸ hnumber, ?_, ?_⟩
    · exact isNearest_zero hx (by simp [Decimal.value, Decimal.magnitude])
    · rw [Decimal.toBinary64_zero rfl, Finite.unsignZero, if_pos hx]
  · obtain ⟨q, ⟨n, e, htext, hq⟩, hcovers⟩ := exists_spellsUnsigned hx
    have hnumber : Number (numberText (.finite x)) ⟨x.negative, n, e⟩ := by
      rw [numberText_of_ne hx]
      cases x.negative with
      | true => exact .negative htext
      | false => exact .positive htext
    have hmagnitude : Decimal.magnitude ⟨x.negative, n, e⟩ = q := hq
    refine ⟨_, hnumber, ?_, ?_⟩
    · have hnearest := isNearest_of_covers hx hcovers
      rwa [Decimal.value, hmagnitude]
    · rw [unsignZero_of_ne hx]
      exact Decimal.toBinary64_of_covers hx rfl (hmagnitude ▸ hcovers)

end Json

end Rowcast
