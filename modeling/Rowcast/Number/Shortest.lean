import Rowcast.Number.Binary64

/-!
# The shortest decimal of a number

Many decimals round to the same binary64 number: those in an interval around it that reaches half
way to its neighbours, with its ends when the significand is even.  `shortest` picks one with the
fewest digits, and of those the one nearest to the number.  With `n` digits only the two decimals
next to the number need a look: if any decimal of that grid lies in the interval, one of these
two does.
-/

namespace Rowcast.Binary64

/-- A decimal by its digits: the first stands at the power of ten `exponent`. -/
structure Digits where
  digits : List Char
  exponent : Int
  deriving DecidableEq

/-- The magnitude in quarters of the unit of its last place, with the two ends of the interval of
reals that round to it. Below a power of two the numbers lie twice as close. -/
def Finite.quarters (x : Finite) : Nat × Nat × Nat :=
  let m := 4 * x.significand
  let below := if x.significand = Nat.pow 2 52 ∧ leastExponent < x.exponent then 1 else 2
  (m - below, m, m + 2)

/-- The fraction `n * 2 ^ e`. -/
def twoPower (n : Nat) : Int → Nat × Nat
  | .ofNat k => (n * Nat.pow 2 k, 1)
  | .negSucc k => (n, Nat.pow 2 (k + 1))

/-- The fraction `n * 10 ^ e`. -/
def tenPower (n : Nat) : Int → Nat × Nat
  | .ofNat k => (n * Nat.pow 10 k, 1)
  | .negSucc k => (n, Nat.pow 10 (k + 1))

def atMost (x y : Nat × Nat) : Bool := x.1 * y.2 ≤ y.1 * x.2

def below (x y : Nat × Nat) : Bool := x.1 * y.2 < y.1 * x.2

/-- Whether the decimal `c * 10 ^ k` rounds to `x`. -/
def Finite.admits (x : Finite) (c : Nat) (k : Int) : Bool :=
  let (low, _, high) := x.quarters
  let e := x.exponent - 2
  let c := tenPower c k
  if x.significand % 2 = 0 then atMost (twoPower low e) c && atMost c (twoPower high e)
  else below (twoPower low e) c && below c (twoPower high e)

/-- The power of ten that stands at the first digit of the positive fraction `n / d`. -/
def leadingExponent (n d : Nat) : Int :=
  if d ≤ n then (((Nat.toDigits 10 (n / d)).length - 1 : Nat) : Int)
  else
    let length := (Nat.toDigits 10 (d / n)).length
    if d ≤ n * Nat.pow 10 (length - 1) then -((length - 1 : Nat) : Int) else -(length : Int)

/-- How far the decimal just below `x` on the grid of `10 ^ k` lies from `x`, and how far the one
just above does, both times the same factor, with the lower one in units of the grid. -/
def Finite.neighbours (x : Finite) (k : Int) : Nat × Nat × Nat :=
  let (n, d) := x.ratio
  let (a, b) := tenPower 1 k
  let q := n * b / (d * a)
  let r := n * b % (d * a)
  (q, r, d * a - r)

/-- The decimal on the grid of `10 ^ k` that rounds to `x` and is nearest to it; of two equally
near the even one. -/
def Finite.onGrid? (x : Finite) (k : Int) : Option Nat :=
  let (c, toLower, toUpper) := x.neighbours k
  match x.admits c k, x.admits (c + 1) k with
  | false, false => none
  | true, false => some c
  | false, true => some (c + 1)
  | true, true =>
    if toLower < toUpper then some c
    else if toUpper < toLower then some (c + 1)
    else if c % 2 = 0 then some c else some (c + 1)

/-- Tries grids with `tries` more digits, one digit at a time, from `10 ^ k` on. -/
def Finite.search (x : Finite) (k : Int) : Nat → Nat × Int
  | 0 => (x.neighbours k |>.1, k)
  | tries + 1 =>
    match x.onGrid? k with
    | some c => (c, k)
    | none => x.search (k - 1) tries

/-- The digits of `c * 10 ^ k` without zeros at the end. -/
def Digits.ofScaled (c : Nat) (k : Int) : Digits :=
  let digits := Nat.toDigits 10 c
  let kept := (digits.reverse.dropWhile (· == '0')).reverse
  ⟨if kept.isEmpty then ['0'] else kept, k + ((digits.length - 1 : Nat) : Int)⟩

/-- The shortest decimal that rounds to `x`. Seventeen digits are always enough. -/
def Finite.shortest (x : Finite) : Digits :=
  if x.significand = 0 then ⟨['0'], 0⟩
  else
    let (n, d) := x.ratio
    let (c, k) := x.search (leadingExponent n d) 17
    Digits.ofScaled c k

end Rowcast.Binary64
