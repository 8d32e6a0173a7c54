/-!
# Binary floating point with 53 bits

A finite number is a sign, a significand below `2 ^ 53` and an exponent of two.  The significand
is as large as the exponent allows, so each number has one form, the two zeros apart.  `ofRatio`
rounds a fraction of natural numbers to the nearest such number, a tie going to the even
significand; beyond the largest number it gives an infinity.  All of it is exact arithmetic on
`Nat`, so a statement about rounding is a statement about fractions.
-/

namespace Rowcast

namespace Binary64

/-- The exponent of the smallest positive number. -/
def leastExponent : Int := -1074

def greatestExponent : Int := 971

/-- The one form in which a finite number is written as `m * 2 ^ e`. -/
def Canonical (m : Nat) (e : Int) : Prop :=
  m < Nat.pow 2 53 ∧ leastExponent ≤ e ∧ e ≤ greatestExponent ∧
    (e = leastExponent ∨ Nat.pow 2 52 ≤ m)

instance (m : Nat) (e : Int) : Decidable (Canonical m e) := by
  unfold Canonical; infer_instance

/-- The finite number `± significand * 2 ^ exponent`. -/
structure Finite where
  negative : Bool
  significand : Nat
  exponent : Int
  canonical : Canonical significand exponent
  deriving DecidableEq

def Finite.zero (negative : Bool) : Finite where
  negative := negative
  significand := 0
  exponent := leastExponent
  canonical := by decide

/-- The fraction `numerator / denominator` divided by `2 ^ e`, as a fraction. -/
def scaled (numerator denominator : Nat) : Int → Nat × Nat
  | .ofNat k => (numerator, denominator * Nat.pow 2 k)
  | .negSucc k => (numerator * Nat.pow 2 (k + 1), denominator)

def Finite.ratio (x : Finite) : Nat × Nat :=
  match x.exponent with
  | .ofNat k => (x.significand * Nat.pow 2 k, 1)
  | .negSucc k => (x.significand, Nat.pow 2 (k + 1))

end Binary64

/-- The nearest integer to `n / d`; of two equally near the even one. -/
def roundDiv (n d : Nat) : Nat :=
  let q := n / d
  let r := n % d
  if 2 * r < d then q
  else if d < 2 * r then q + 1
  else if q % 2 = 0 then q else q + 1

/-- A number of the interchange format binary64; all that is not a number counts as one. -/
inductive Binary64 where
  | finite (x : Binary64.Finite)
  | infinite (negative : Bool)
  | notANumber
  deriving DecidableEq

namespace Binary64

/-- The number with the given sign, significand and exponent, or an infinity where there is no
such number. -/
def ofParts (negative : Bool) (m : Nat) (e : Int) : Binary64 :=
  if h : Canonical m e then .finite ⟨negative, m, e, h⟩ else .infinite negative

/-- The exponent that numbers next to the positive fraction `n / d` have: `2 ^ 52` units of it
reach the fraction and `2 ^ 53` exceed it, unless even the least exponent is too large. -/
def unitExponent (n d : Nat) : Int :=
  let k : Int := (n.log2 : Int) - d.log2
  let (a, b) := scaled n d k
  let top := if a < b then k - 1 else k
  max leastExponent (top - 52)

/-- The number nearest to `± n / d`. -/
def ofRatio (negative : Bool) (n d : Nat) : Binary64 :=
  if n = 0 then .finite (.zero negative)
  else
    let e := unitExponent n d
    let (a, b) := scaled n d e
    let m := roundDiv a b
    if m = Nat.pow 2 53 then ofParts negative (Nat.pow 2 52) (e + 1) else ofParts negative m e

/-- The 64 bits of the interchange format, with one quiet pattern for what is not a number. -/
def toBits : Binary64 → Nat
  | .finite x =>
    let sign := if x.negative then Nat.pow 2 63 else 0
    if x.significand < Nat.pow 2 52 then sign + x.significand
    else sign + (x.exponent + 1075).toNat * Nat.pow 2 52 + (x.significand - Nat.pow 2 52)
  | .infinite negative => (if negative then Nat.pow 2 63 else 0) + 2047 * Nat.pow 2 52
  | .notANumber => 2047 * Nat.pow 2 52 + Nat.pow 2 51

end Binary64

end Rowcast
