import Mathlib
import Rowcast.Proofs.Json.NumberText
import Rowcast.Proofs.Number.Literal
import Rowcast.Proofs.Text.Blank

/-!
# The text of a number as a literal

A number of the JSON grammar is also a literal as a column of numbers reads it
(`exists_literal_of_number`).  The reader takes an exponent in full only while it is short, so it
has to be seen that the exponents that are written stay small.  The digits of a number spell a
rational that the number covers, and what numbers cover lies between powers of ten that are far
from the limit (`natAbs_exponent_shortest_le`).

Where the exponent stands in a text is found by dropping what does not begin one: this leaves the
exponent of a literal (`Literal.dropWhile_text`) and the one that was written
(`exists_dropWhile_numberText`), so they are the same.
-/

namespace Rowcast

open Text

/-! ### The size of digits -/

namespace Decimal

theorem digitValue_le {c : Char} (h : c.isDigit = true) : digitValue c ≤ 9 := by
  have hnine : c.toNat ≤ 57 := (Char.isDigit_iff_toNat.mp h).2
  unfold digitValue
  omega

theorem one_le_digitValue {c : Char} (h : c.isDigit = true) (hne : c ≠ '0') :
    1 ≤ digitValue c := by
  have hzero : 48 ≤ c.toNat := (Char.isDigit_iff_toNat.mp h).1
  have hne' : c.toNat ≠ 48 := fun heq => hne (Char.toNat_inj.mp heq)
  unfold digitValue
  omega

theorem ofDigits_lt {digits : List Char} (h : ∀ c ∈ digits, c.isDigit = true) :
    ofDigits digits < 10 ^ digits.length := by
  induction digits using List.reverseRecOn with
  | nil => exact Nat.one_pos
  | append_singleton digits c ih =>
    obtain ⟨hdigits, hc⟩ := List.forall_mem_append.mp h
    have hfront := ih hdigits
    have hlast := digitValue_le (hc c List.mem_cons_self)
    rw [ofDigits_concat, List.length_append, List.length_singleton, pow_succ]
    omega

theorem le_ofDigits {first : Char} {rest : List Char} (hdigit : first.isDigit = true)
    (hne : first ≠ '0') : 10 ^ rest.length ≤ ofDigits (first :: rest) := by
  have hone : 1 ≤ ofDigits [first] := by
    have hvalue : ofDigits [first] = digitValue first := by simp [ofDigits]
    rw [hvalue]
    exact one_le_digitValue hdigit hne
  rw [← List.singleton_append, ofDigits_append]
  exact (Nat.le_mul_of_pos_left _ hone).trans (Nat.le_add_right _ _)

end Decimal

namespace Binary64

variable {x : Finite} {d : Digits} {q : ℚ}

/-- The first digit of a rational stands at its greatest power of ten. -/
theorem Digits.Spells.bounds (h : d.Spells q) :
    (10 : ℚ) ^ d.exponent ≤ q ∧ q < 10 ^ (d.exponent + 1) := by
  obtain ⟨first, rest, heq, hne⟩ := h.first
  have hdigits : ∀ c ∈ first :: rest, c.isDigit = true := heq ▸ h.digits
  have hlow : 10 ^ rest.length ≤ Decimal.ofDigits (first :: rest) :=
    Decimal.le_ofDigits (hdigits first List.mem_cons_self) hne
  have hhigh := Decimal.ofDigits_lt hdigits
  have hlowq : (10 : ℚ) ^ rest.length ≤ Decimal.ofDigits (first :: rest) := by exact_mod_cast hlow
  have hhighq : (Decimal.ofDigits (first :: rest) : ℚ) < 10 ^ (rest.length + 1) := by
    exact_mod_cast hhigh
  have hvalue := h.value
  rw [heq, List.length_cons, Nat.add_sub_cancel] at hvalue
  have hpos : (0 : ℚ) < 10 ^ (d.exponent - rest.length) := by positivity
  rw [← hvalue]
  constructor
  · calc (10 : ℚ) ^ d.exponent = 10 ^ ((rest.length : Int) + (d.exponent - rest.length)) := by
          congr 1
          omega
      _ = 10 ^ rest.length * 10 ^ (d.exponent - rest.length) := by
          rw [zpow_add₀ (by norm_num), zpow_natCast]
      _ ≤ Decimal.ofDigits (first :: rest) * 10 ^ (d.exponent - rest.length) :=
          mul_le_mul_of_nonneg_right hlowq hpos.le
  · calc (Decimal.ofDigits (first :: rest) : ℚ) * 10 ^ (d.exponent - rest.length)
        < 10 ^ (rest.length + 1) * 10 ^ (d.exponent - rest.length) :=
          mul_lt_mul_of_pos_right hhighq hpos
      _ = 10 ^ (((rest.length + 1 : Nat) : Int) + (d.exponent - rest.length)) := by
          rw [zpow_add₀ (by norm_num), zpow_natCast]
      _ = 10 ^ (d.exponent + 1) := by
          congr 1
          omega

theorem two_zpow_le_ten_zpow {n : Int} (hn : 0 ≤ n) : (2 : ℚ) ^ n ≤ 10 ^ n :=
  zpow_le_zpow_left₀ hn (by norm_num) (by norm_num)

/-- What a number covers lies between powers of ten. -/
theorem Finite.Covers.bounds (hx : x.significand ≠ 0) (h : x.Covers q) :
    (10 : ℚ) ^ (-1075 : Int) ≤ q ∧ q < 10 ^ (1024 : Int) := by
  constructor
  · have hleast : (2 : ℚ) ^ (-1074 : Int) ≤ x.gapAbove :=
      zpow_le_zpow_right₀ (by norm_num) (leastExponent_le x)
    have hlow := h.1
    rw [low_eq hx] at hlow
    have hhalf : x.gapAbove / 2 ≤ q := by linarith [gapAbove_le_magnitude hx, gapBelow_le x]
    calc (10 : ℚ) ^ (-1075 : Int) ≤ 2 ^ (-1075 : Int) := by
          rw [zpow_neg, zpow_neg]
          exact inv_anti₀ (by positivity) (two_zpow_le_ten_zpow (by norm_num))
      _ = 2 ^ (-1074 : Int) / 2 := by
          rw [div_eq_mul_inv, ← zpow_sub_one₀ (by norm_num)]
          norm_num
      _ ≤ q := by linarith
  · have hgreatest : x.gapAbove ≤ (2 : ℚ) ^ (971 : Int) :=
      zpow_le_zpow_right₀ (by norm_num) x.canonical.2.2.1
    calc q < 2 ^ 53 * x.gapAbove := h.lt_top
      _ ≤ 2 ^ 53 * 2 ^ (971 : Int) := by gcongr
      _ = 2 ^ (1024 : Int) := by
          rw [← zpow_natCast, ← zpow_add₀ (by norm_num)]
          norm_num
      _ ≤ 10 ^ (1024 : Int) := two_zpow_le_ten_zpow (by norm_num)

/-- The exponents of numbers are small.  The bound is far from sharp, and it need not be. -/
theorem natAbs_exponent_shortest_le (hx : x.significand ≠ 0) :
    x.shortest.exponent.natAbs ≤ 1075 := by
  obtain ⟨q, hspells, hcovers⟩ := spells_shortest hx
  obtain ⟨hlow, hhigh⟩ := hspells.bounds
  obtain ⟨hleast, hgreatest⟩ := hcovers.bounds hx
  have hlt : ∀ {a b : Int}, (10 : ℚ) ^ a < 10 ^ b → a < b :=
    (zpow_lt_zpow_iff_right₀ (by norm_num : (1 : ℚ) < 10)).mp
  have hupper := hlt (hlow.trans_lt hgreatest)
  have hlower := hlt (hleast.trans_lt hhigh)
  omega

end Binary64

/-! ### The characters of a literal -/

namespace Decimal

/-- A character that does not begin an exponent. -/
def isBeforePower (c : Char) : Bool := c != 'e' && c != 'E'

/-- A character of a literal without an exponent. -/
def InFront (c : Char) : Prop := c.isDigit = true ∨ c = '.' ∨ c = '+' ∨ c = '-'

theorem InFront.digit {c : Char} (h : c.isDigit = true) : InFront c := .inl h

theorem InFront.point : InFront '.' := .inr (.inl rfl)

theorem InFront.sign {c : Char} (h : c = '+' ∨ c = '-') : InFront c := .inr (.inr h)

def Literal.front (l : Literal) : List Char := l.sign.text ++ (l.whole ++ pointText l.fraction?)

theorem Literal.text_eq (l : Literal) : l.text = l.front ++ powerText l.power? := by
  simp only [Literal.text, Literal.front, List.append_assoc]

theorem isSign_of_mem {sign : Sign} {c : Char} (hc : c ∈ sign.text) : c = '+' ∨ c = '-' := by
  cases sign <;> simp_all [Sign.text]

theorem Literal.inFront_of_mem {l : Literal} {c : Char} (hc : c ∈ l.front) : InFront c := by
  rw [Literal.front, List.mem_append, List.mem_append] at hc
  rcases hc with hc | hc | hc
  · exact .sign (isSign_of_mem hc)
  · exact .digit (l.isDigit_whole c hc)
  · have hdigits := l.isDigit_fraction
    cases hfraction : l.fraction? with
    | none => simp [hfraction, pointText] at hc
    | some digits =>
      rw [hfraction] at hc hdigits
      rcases List.mem_cons.mp hc with rfl | hc
      · exact .point
      · exact .digit (hdigits c hc)

theorem InFront.isBeforePower {c : Char} (h : InFront c) : isBeforePower c = true := by
  rcases h with hc | rfl | rfl | rfl
  · simp only [Decimal.isBeforePower, Bool.and_eq_true, bne_iff_ne]
    constructor <;> rintro rfl <;> contradiction
  · rfl
  · rfl
  · rfl

/-- What is left of a literal from the exponent on. -/
theorem Literal.dropWhile_text (l : Literal) :
    l.text.dropWhile isBeforePower = powerText l.power? := by
  rw [l.text_eq]
  exact (span_append (fun c hc => (Literal.inFront_of_mem hc).isBeforePower)
    (stops_powerText rfl rfl _)).2

theorem isBlank_of_digit {c : Char} (h : c.isDigit = true) : isBlank c = false := by
  obtain ⟨hlow, hhigh⟩ : 48 ≤ c.toNat ∧ c.toNat ≤ 57 := Char.isDigit_iff_toNat.mp h
  simp only [isBlank, Bool.or_eq_false_iff, Bool.and_eq_false_iff, decide_eq_false_iff_not,
    beq_eq_false_iff_ne]
  omega

theorem InFront.isBlank {c : Char} (h : InFront c) : isBlank c = false := by
  rcases h with hc | rfl | rfl | rfl
  · exact isBlank_of_digit hc
  · rfl
  · rfl
  · rfl

/-- There is no blank space in a literal. -/
theorem Literal.isBlank_of_mem {l : Literal} {c : Char} (hc : c ∈ l.text) : isBlank c = false := by
  rw [l.text_eq, List.mem_append] at hc
  rcases hc with hc | hc
  · exact (Literal.inFront_of_mem hc).isBlank
  · cases hpower : l.power? with
    | none => simp [hpower, powerText] at hc
    | some power =>
      rw [hpower, powerText, Power.text, List.mem_cons, List.mem_append] at hc
      rcases hc with rfl | hc | hc
      · rcases power.isMark with hmark | hmark <;> rw [hmark] <;> rfl
      · exact (InFront.sign (isSign_of_mem hc)).isBlank
      · exact isBlank_of_digit (power.isDigit c hc)

end Decimal

/-! ### From the grammar to literals -/

namespace Json

open Binary64 Decimal

theorem Whole.allDigits {t : List Char} (h : Whole t) : AllDigits t := by
  cases h with
  | zero => exact allDigits_zeros 1
  | digits hfirst hne hrest => exact List.forall_mem_cons.mpr ⟨hfirst, hrest⟩

theorem Whole.ne_nil {t : List Char} (h : Whole t) : t ≠ [] := by
  cases h <;> exact List.cons_ne_nil _ _

theorem exists_pointText_of_fraction {t digits : List Char} (h : Fraction t digits) :
    ∃ fraction? : Option (List Char), pointText fraction? = t ∧ fraction?.getD [] = digits ∧
      AllDigits digits := by
  cases h with
  | absent => exact ⟨none, rfl, rfl, List.forall_mem_nil _⟩
  | present hne hdigits => exact ⟨some digits, rfl, rfl, hdigits⟩

theorem exists_powerText_of_exponent {t : List Char} {e : Int} (h : Exponent t e) :
    ∃ power? : Option Power, powerText power? = t ∧ power?.elim 0 Power.value = e := by
  cases h with
  | absent => exact ⟨none, rfl, rfl⟩
  | @unsigned mark digits hmark hne hdigits =>
    exact ⟨some ⟨mark, .absent, digits, hmark, hne, hdigits⟩, rfl, rfl⟩
  | @plus mark digits hmark hne hdigits =>
    exact ⟨some ⟨mark, .plus, digits, hmark, hne, hdigits⟩, rfl, rfl⟩
  | @minus mark digits hmark hne hdigits =>
    exact ⟨some ⟨mark, .minus, digits, hmark, hne, hdigits⟩, rfl, rfl⟩

theorem exists_literal_of_unsigned (sign : Sign) {t : List Char} {n : Nat} {e : Int}
    (h : Unsigned t n e) :
    ∃ l : Literal, l.text = sign.text ++ t ∧ l.decimal = ⟨decide (sign = .minus), n, e⟩ := by
  cases h with
  | @mk whole fraction digits exponent e hwhole hfraction hexponent =>
    obtain ⟨fraction?, rfl, rfl, hdigits⟩ := exists_pointText_of_fraction hfraction
    obtain ⟨power?, rfl, rfl⟩ := exists_powerText_of_exponent hexponent
    have hne : whole ++ fraction?.getD [] ≠ [] := by simp [hwhole.ne_nil]
    refine ⟨⟨sign, whole, fraction?, power?, hwhole.allDigits, hdigits, hne⟩, rfl, ?_⟩
    cases power? <;> rfl

/-- **A number of the grammar is a literal** that stands for the same decimal. -/
theorem exists_literal_of_number {t : List Char} {d : Decimal} (h : Number t d) :
    ∃ l : Literal, l.text = t ∧ l.decimal = d := by
  cases h with
  | positive h => exact exists_literal_of_unsigned .absent h
  | negative h => exact exists_literal_of_unsigned .minus h

/-! ### Written exponents -/

def writtenPower (e : Int) : Power where
  mark := 'e'
  sign := if e < 0 then .minus else .plus
  digits := Nat.toDigits 10 e.natAbs
  isMark := .inl rfl
  ne_nil := List.ne_nil_of_length_pos Nat.length_toDigits_pos
  isDigit := fun _ hc => Decimal.isDigit_of_mem_toDigits hc

theorem text_writtenPower (e : Int) : (writtenPower e).text =
    'e' :: (if e < 0 then '-' else '+') :: Nat.toDigits 10 e.natAbs := by
  unfold Power.text writtenPower
  split <;> rfl

theorem natAbs_writtenPower (e : Int) : (writtenPower e).value.natAbs = e.natAbs := by
  rw [natAbs_value]
  exact ofDigits_toDigits _

theorem dropWhile_of_inFront {s rest : List Char} (h : ∀ c ∈ s, InFront c)
    (hrest : Stops isBeforePower rest) : (s ++ rest).dropWhile isBeforePower = rest :=
  (span_append (fun c hc => (h c hc).isBeforePower) hrest).2

theorem dropWhile_of_inFront_nil {s : List Char} (h : ∀ c ∈ s, InFront c) :
    s.dropWhile isBeforePower = [] :=
  List.dropWhile_eq_nil_iff.mpr fun c hc => (h c hc).isBeforePower

variable {d : Digits}

theorem inFront_zeros (n : Nat) {c : Char} (hc : c ∈ zeros n) : InFront c :=
  .digit (allDigits_zeros n c hc)

theorem inFront_of_mem_writtenOut (h : AllDigits d.digits) {c : Char} (hc : c ∈ writtenOut d) :
    InFront c := by
  unfold writtenOut at hc
  split at hc
  · split at hc
    · simp only [List.mem_append, List.mem_cons, List.not_mem_nil, or_false] at hc
      rcases hc with (hc | hc) | rfl | rfl
      · exact .digit (h c hc)
      · exact inFront_zeros _ hc
      · exact .point
      · exact .digit rfl
    · simp only [List.mem_append, List.mem_cons] at hc
      rcases hc with hc | rfl | hc
      · exact .digit (h c (List.mem_of_mem_take hc))
      · exact .point
      · exact .digit (h c (List.mem_of_mem_drop hc))
  · simp only [List.cons_append, List.mem_append, List.mem_cons] at hc
    rcases hc with rfl | rfl | hc | hc
    · exact .digit rfl
    · exact .point
    · exact inFront_zeros _ hc
    · exact .digit (h c hc)

theorem dropWhile_scientific (h : AllDigits d.digits) :
    (scientific d).dropWhile isBeforePower = (writtenPower d.exponent).text := by
  rw [text_writtenPower]
  unfold scientific
  refine dropWhile_of_inFront ?_ (stops_cons rfl _)
  intro c hc
  split at hc
  · next first second rest heq =>
    rw [heq] at h
    rcases List.mem_cons.mp hc with rfl | hc
    · exact .digit (h _ List.mem_cons_self)
    · rcases List.mem_cons.mp hc with rfl | hc
      · exact .point
      · exact .digit (h c (List.mem_cons_of_mem _ hc))
  · exact .digit (h c hc)

variable {x : Finite}

theorem exists_dropWhile_magnitudeText (hx : x.significand ≠ 0) : ∃ power? : Option Power,
    (magnitudeText x).dropWhile isBeforePower = powerText power? ∧
      ∀ power ∈ power?, power.value.natAbs ≤ 1075 := by
  obtain ⟨q, hspells, -⟩ := spells_shortest hx
  unfold magnitudeText
  split
  · exact ⟨none, dropWhile_of_inFront_nil fun c hc => .digit (isDigit_of_mem_toDigits hc), by simp⟩
  · unfold fractionText
    split
    · exact ⟨none, dropWhile_of_inFront_nil fun c => inFront_of_mem_writtenOut hspells.digits,
        by simp⟩
    · refine ⟨some (writtenPower x.shortest.exponent), dropWhile_scientific hspells.digits, ?_⟩
      rintro power ⟨⟩
      rw [natAbs_writtenPower]
      exact natAbs_exponent_shortest_le hx

/-- What is left of the text of a number from the exponent on. -/
theorem exists_dropWhile_numberText (x : Finite) : ∃ power? : Option Power,
    (numberText (.finite x)).dropWhile isBeforePower = powerText power? ∧
      ∀ power ∈ power?, power.value.natAbs ≤ 1075 := by
  by_cases hx : x.significand = 0
  · exact ⟨none, by rw [numberText_of_eq hx]; rfl, by simp⟩
  · obtain ⟨power?, hdrop, hle⟩ := exists_dropWhile_magnitudeText hx
    refine ⟨power?, ?_, hle⟩
    rw [numberText_of_ne hx]
    split
    · rwa [List.dropWhile_cons_of_pos rfl]
    · exact hdrop

/-- **The text of a number is a literal that is read in full**, and what it stands for rounds to
the number. -/
theorem exists_literal_numberText (x : Finite) : ∃ l : Literal,
    l.text = numberText (.finite x) ∧ l.exponent.natAbs < exponentBound ∧
      l.decimal.toBinary64 = .finite x.unsignZero := by
  obtain ⟨d, hnumber, -, hround⟩ := exists_number x
  obtain ⟨l, htext, rfl⟩ := exists_literal_of_number hnumber
  obtain ⟨power?, hdrop, hle⟩ := exists_dropWhile_numberText x
  rw [← htext, l.dropWhile_text] at hdrop
  obtain rfl := powerText_inj hdrop
  refine ⟨l, htext, ?_, hround⟩
  unfold Literal.exponent
  split
  · decide
  · next power hpower => exact lt_of_le_of_lt (hle power hpower) (by decide)

end Json

end Rowcast
