import Mathlib
import Rowcast.Proofs.Number.Decimal
import Rowcast.Proofs.Text.Span

/-!
# Literals as they are written

A `Literal` is a number as it may be written: an optional sign, digits with at most one point among
them, at least one digit before or behind it, and an optional exponent of ten.  It stands for a
rational, `Literal.value`.

A text is one literal at most (`text_injective`).  The reader of decimals reads these texts and no
others (`exists_literal_of_read?`), and it loses nothing of what they stand for (`read?_text`),
unless an exponent is so long that it stops growing (`boundedExponent_eq`).
-/

namespace Rowcast.Decimal

open Text

inductive Sign where
  | absent
  | plus
  | minus
  deriving DecidableEq

def Sign.text : Sign → List Char
  | absent => []
  | plus => ['+']
  | minus => ['-']

structure Power where
  mark : Char
  sign : Sign
  digits : List Char
  isMark : mark = 'e' ∨ mark = 'E'
  ne_nil : digits ≠ []
  isDigit : ∀ c ∈ digits, c.isDigit = true

namespace Power

def text (p : Power) : List Char := p.mark :: (p.sign.text ++ p.digits)

def value (p : Power) : Int :=
  if p.sign = .minus then -(ofDigits p.digits : Int) else ofDigits p.digits

end Power

/-- The digits behind a point with the point before them, or neither. -/
def pointText : Option (List Char) → List Char
  | none => []
  | some digits => '.' :: digits

def powerText : Option Power → List Char
  | none => []
  | some power => power.text

/-- A number as it may be written. There is a digit before the point or behind it. -/
structure Literal where
  sign : Sign
  whole : List Char
  fraction? : Option (List Char)
  power? : Option Power
  isDigit_whole : ∀ c ∈ whole, c.isDigit = true
  isDigit_fraction : ∀ c ∈ fraction?.getD [], c.isDigit = true
  ne_nil : whole ++ fraction?.getD [] ≠ []

namespace Literal

variable (l : Literal)

def text : List Char := l.sign.text ++ (l.whole ++ (pointText l.fraction? ++ powerText l.power?))

def fraction : List Char := l.fraction?.getD []

/-- The exponent that is written, or zero. -/
def exponent : Int :=
  match l.power? with
  | none => 0
  | some power => power.value

/-- The digits as an integer, and the power of ten that puts the point where it is written. -/
def decimal : Decimal :=
  ⟨decide (l.sign = .minus), ofDigits (l.whole ++ l.fraction), l.exponent - l.fraction.length⟩

def value : ℚ := l.decimal.value

end Literal

/-! ### Signs -/

def isSign (c : Char) : Bool := c = '+' || c = '-'

theorem readSign_of_stops {s : List Char} (h : Stops isSign s) : readSign s = (false, s) := by
  unfold readSign
  split
  · exact absurd (h '-' rfl) (by decide)
  · exact absurd (h '+' rfl) (by decide)
  · rfl

theorem readSign_append (sign : Sign) {s : List Char} (h : Stops isSign s) :
    readSign (sign.text ++ s) = (decide (sign = .minus), s) := by
  cases sign with
  | absent => exact readSign_of_stops h
  | plus | minus => rfl

theorem exists_readSign (s : List Char) : ∃ sign : Sign, s = sign.text ++ (readSign s).2 := by
  unfold readSign
  split
  · exact ⟨.minus, rfl⟩
  · exact ⟨.plus, rfl⟩
  · exact ⟨.absent, rfl⟩

theorem stops_isSign_of_digit {s rest : List Char} (hne : s ≠ [])
    (hs : ∀ c ∈ s, c.isDigit = true) : Stops isSign (s ++ rest) := by
  obtain ⟨c, s, rfl⟩ := List.exists_cons_of_ne_nil hne
  refine stops_cons ?_ (s ++ rest)
  have hc := hs c List.mem_cons_self
  by_contra hsign
  simp only [isSign, Bool.or_eq_false_iff, decide_eq_false_iff_not, not_and_or, not_not] at hsign
  rcases hsign with rfl | rfl <;> contradiction

theorem stops_isSign_of_digits {s : List Char} (hne : s ≠ [])
    (hs : ∀ c ∈ s, c.isDigit = true) : Stops isSign s := by
  have hstop : Stops isSign (s ++ []) := stops_isSign_of_digit hne hs
  rwa [List.append_nil] at hstop

/-! ### Exponents -/

theorem ofDigits_concat (digits : List Char) (c : Char) :
    ofDigits (digits ++ [c]) = 10 * ofDigits digits + digitValue c := by
  rw [ofDigits, List.foldl_append]
  rfl

/-- An exponent below the bound never stops growing. -/
theorem boundedExponent_eq {digits : List Char} (h : ofDigits digits < exponentBound) :
    boundedExponent digits = ofDigits digits := by
  induction digits using List.reverseRecOn with
  | nil => rfl
  | append_singleton digits c ih =>
    rw [ofDigits_concat] at h ⊢
    have hfront : ofDigits digits < exponentBound := by omega
    have hstep : boundedExponent (digits ++ [c]) =
        if boundedExponent digits < exponentBound then 10 * boundedExponent digits + digitValue c
        else boundedExponent digits := by
      rw [boundedExponent, List.foldl_append]
      rfl
    rw [hstep, ih hfront, if_pos hfront]

theorem natAbs_value (p : Power) : p.value.natAbs = ofDigits p.digits := by
  unfold Power.value
  split <;> simp

theorem readExponent?_text {p : Power} (h : p.value.natAbs < exponentBound) :
    readExponent? p.text = some p.value := by
  have hsign : readSign (p.sign.text ++ p.digits) = (decide (p.sign = .minus), p.digits) :=
    readSign_append p.sign (stops_isSign_of_digits p.ne_nil p.isDigit)
  have hform : ((p.mark == 'e' || p.mark == 'E') && !p.digits.isEmpty &&
      p.digits.all Char.isDigit) = true := by
    have hempty : p.digits.isEmpty = false := by simpa using p.ne_nil
    have hall : p.digits.all Char.isDigit = true := List.all_eq_true.mpr p.isDigit
    rcases p.isMark with hmark | hmark <;> simp [hmark, hempty, hall]
  rw [natAbs_value] at h
  unfold Power.text readExponent?
  simp only [hsign, hform, if_true, boundedExponent_eq h, decide_eq_true_eq]
  rfl

/-- What is read as an exponent is written as one, or it is nothing. -/
theorem exists_powerText_of_readExponent? {s : List Char} {e : Int}
    (h : readExponent? s = some e) : ∃ power? : Option Power, s = powerText power? := by
  cases s with
  | nil => exact ⟨none, rfl⟩
  | cons c s =>
    obtain ⟨sign, hs⟩ := exists_readSign s
    simp only [readExponent?, Option.ite_none_right_eq_some, Bool.and_eq_true, Bool.or_eq_true,
      beq_iff_eq, Bool.not_eq_true', List.isEmpty_eq_false_iff, List.all_eq_true] at h
    obtain ⟨⟨⟨hmark, hne⟩, hdigits⟩, -⟩ := h
    exact ⟨some ⟨c, sign, (readSign s).2, hmark, hne, hdigits⟩, congrArg (c :: ·) hs⟩

/-! ### Literals -/

theorem stops_powerText {p : Char → Bool} (hlower : p 'e' = false) (hupper : p 'E' = false)
    (power? : Option Power) : Stops p (powerText power?) := by
  cases power? with
  | none => exact stops_nil p
  | some power =>
    refine stops_cons ?_ _
    rcases power.isMark with hmark | hmark <;> rwa [hmark]

theorem stops_pointText {p : Char → Bool} (hpoint : p '.' = false)
    (fraction? : Option (List Char)) : Stops p (pointText fraction?) := by
  cases fraction? with
  | none => exact stops_nil p
  | some digits => exact stops_cons hpoint _

theorem readFraction_text {fraction? : Option (List Char)} {rest : List Char}
    (hdigits : ∀ c ∈ fraction?.getD [], c.isDigit = true) (hpoint : Stops (· = '.') rest)
    (hrest : Stops Char.isDigit rest) :
    readFraction (pointText fraction? ++ rest) = (fraction?.getD [], rest) := by
  cases fraction? with
  | none =>
    rw [pointText, List.nil_append]
    unfold readFraction
    split
    · next s => exact absurd (hpoint '.' rfl) (by simp)
    · rfl
  | some digits =>
    obtain ⟨htake, hdrop⟩ := span_append hdigits hrest
    exact Prod.ext htake hdrop

section Literal

variable (l : Literal)

/-- No sign stands where the digits begin. -/
theorem stops_digits : Stops isSign (l.whole ++ (pointText l.fraction? ++ powerText l.power?)) := by
  by_cases hwhole : l.whole = []
  · have hne := l.ne_nil
    rw [hwhole, List.nil_append] at hne ⊢
    cases hfraction : l.fraction? with
    | none => exact absurd (by rw [hfraction]; rfl) hne
    | some digits => exact stops_cons rfl _
  · exact stops_isSign_of_digit hwhole l.isDigit_whole

theorem readExponent?_powerText (h : l.exponent.natAbs < exponentBound) :
    readExponent? (powerText l.power?) = some l.exponent := by
  unfold Literal.exponent at h ⊢
  cases hpower : l.power? with
  | none => rfl
  | some power =>
    rw [hpower] at h
    exact readExponent?_text h

/-- **A literal is read as what it stands for.** -/
theorem read?_text (h : l.exponent.natAbs < exponentBound) : read? l.text = some l.decimal := by
  have hdigit : Stops Char.isDigit (powerText l.power?) := stops_powerText rfl rfl _
  obtain ⟨htake, hdrop⟩ :=
    span_append l.isDigit_whole (stops_append (stops_pointText rfl l.fraction?) hdigit)
  have hfraction := readFraction_text l.isDigit_fraction (stops_powerText rfl rfl _) hdigit
  have hsome : (l.whole.isEmpty && (l.fraction?.getD []).isEmpty) = false := by
    rw [Bool.eq_false_iff]
    intro hempty
    rw [Bool.and_eq_true, List.isEmpty_iff, List.isEmpty_iff] at hempty
    exact l.ne_nil (List.append_eq_nil_iff.mpr hempty)
  simp only [read?, Literal.text, readSign_append l.sign (stops_digits l), htake, hdrop, hfraction,
    hsome, readExponent?_powerText l h, Bool.false_eq_true, if_false, Option.map_some]
  rfl

end Literal

/-! ### A text is one literal -/

theorem sign_append_inj {a b : Sign} {s t : List Char} (hs : Stops isSign s) (ht : Stops isSign t)
    (h : a.text ++ s = b.text ++ t) : a = b ∧ s = t := by
  have hminus := congrArg readSign h
  rw [readSign_append a hs, readSign_append b ht, Prod.mk.injEq] at hminus
  obtain ⟨hsign, rfl⟩ := hminus
  refine ⟨?_, rfl⟩
  have htext := List.append_cancel_right h
  cases a <;> cases b <;> first | rfl | simp [Sign.text] at htext

theorem powerText_inj {a b : Option Power} (h : powerText a = powerText b) : a = b := by
  cases a with
  | none =>
    cases b with
    | none => rfl
    | some q => exact absurd h (by simp [powerText, Power.text])
  | some p =>
    cases b with
    | none => exact absurd h (by simp [powerText, Power.text])
    | some q =>
      obtain ⟨mark, sign, digits, hmark, hne, hdigits⟩ := p
      obtain ⟨mark', sign', digits', hmark', hne', hdigits'⟩ := q
      obtain ⟨rfl, htail⟩ := List.cons.inj h
      obtain ⟨rfl, rfl⟩ := sign_append_inj (stops_isSign_of_digits hne hdigits)
        (stops_isSign_of_digits hne' hdigits') htail
      rfl

theorem pointText_append_inj {a b : Option (List Char)} {p q : Option Power}
    (ha : ∀ c ∈ a.getD [], c.isDigit = true) (hb : ∀ c ∈ b.getD [], c.isDigit = true)
    (h : pointText a ++ powerText p = pointText b ++ powerText q) : a = b ∧ p = q := by
  have hpoint : ∀ (power? : Option Power) (digits : List Char),
      powerText power? ≠ '.' :: digits := by
    intro power? digits heq
    have hstop := stops_powerText (p := (· = '.')) rfl rfl power?
    rw [heq] at hstop
    exact absurd (hstop '.' rfl) (by simp)
  have hdigit : ∀ power? : Option Power, Stops Char.isDigit (powerText power?) :=
    stops_powerText rfl rfl
  cases a with
  | none =>
    cases b with
    | none => exact ⟨rfl, powerText_inj h⟩
    | some digits => exact absurd h (hpoint p _)
  | some digits =>
    cases b with
    | none => exact absurd h.symm (hpoint q _)
    | some digits' =>
      have htail : digits ++ powerText p = digits' ++ powerText q := (List.cons.inj h).2
      obtain ⟨htake, hdrop⟩ := span_append ha (hdigit p)
      obtain ⟨htake', hdrop'⟩ := span_append hb (hdigit q)
      simp only [Option.getD_some] at htake hdrop htake' hdrop'
      rw [htail] at htake hdrop
      exact ⟨congrArg some (htake.symm.trans htake'), powerText_inj (hdrop.symm.trans hdrop')⟩

/-- **A text is at most one literal**, so that it stands for at most one rational. -/
theorem Literal.text_injective : Function.Injective Literal.text := by
  intro l l' h
  obtain ⟨hsign, hunsigned⟩ := sign_append_inj (stops_digits l) (stops_digits l') h
  have hstop : ∀ k : Literal, Stops Char.isDigit (pointText k.fraction? ++ powerText k.power?) :=
    fun k => stops_append (stops_pointText rfl _) (stops_powerText rfl rfl _)
  obtain ⟨htake, hdrop⟩ := span_append l.isDigit_whole (hstop l)
  obtain ⟨htake', hdrop'⟩ := span_append l'.isDigit_whole (hstop l')
  rw [hunsigned] at htake hdrop
  obtain ⟨hfraction, hpower⟩ := pointText_append_inj l.isDigit_fraction l'.isDigit_fraction
    (hdrop.symm.trans hdrop')
  have hwhole := htake.symm.trans htake'
  obtain ⟨sign, whole, fraction?, power?, _, _, _⟩ := l
  obtain ⟨sign', whole', fraction?', power?', _, _, _⟩ := l'
  dsimp only at hsign hwhole hfraction hpower
  subst hsign hwhole hfraction hpower
  rfl

/-- What is read as digits behind a point is written with the point, or it is nothing. -/
theorem exists_pointText (s : List Char) : ∃ fraction? : Option (List Char),
    s = pointText fraction? ++ (readFraction s).2 ∧ (readFraction s).1 = fraction?.getD [] ∧
      ∀ c ∈ fraction?.getD [], c.isDigit = true := by
  unfold readFraction
  split
  · next s =>
    refine ⟨some (s.takeWhile Char.isDigit), ?_, rfl, fun c hc => List.mem_takeWhile_imp hc⟩
    rw [pointText, List.cons_append, List.takeWhile_append_dropWhile]
  · exact ⟨none, rfl, rfl, by simp⟩

/-- **What is read is written as a literal.** -/
theorem exists_literal_of_read? {s : List Char} {d : Decimal} (h : read? s = some d) :
    ∃ l : Literal, l.text = s := by
  obtain ⟨sign, hsign⟩ := exists_readSign s
  simp only [read?, Option.ite_none_left_eq_some, Option.map_eq_some_iff] at h
  generalize (readSign s).2 = unsigned at h hsign
  obtain ⟨fraction?, hrest, hfraction, hdigits⟩ :=
    exists_pointText (unsigned.dropWhile Char.isDigit)
  generalize readFraction (unsigned.dropWhile Char.isDigit) = found at h hrest hfraction
  obtain ⟨hsome, e, hexponent, -⟩ := h
  obtain ⟨power?, hpower⟩ := exists_powerText_of_readExponent? hexponent
  have hwhole : ∀ c ∈ unsigned.takeWhile Char.isDigit, c.isDigit = true :=
    fun c hc => List.mem_takeWhile_imp hc
  refine ⟨⟨sign, unsigned.takeWhile Char.isDigit, fraction?, power?, hwhole, hdigits, ?_⟩, ?_⟩
  · rw [← hfraction]
    simpa using hsome
  · show sign.text ++ (unsigned.takeWhile Char.isDigit ++
      (pointText fraction? ++ powerText power?)) = s
    rw [← hpower, ← hrest, List.takeWhile_append_dropWhile, ← hsign]

end Rowcast.Decimal
