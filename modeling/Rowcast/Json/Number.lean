import Rowcast.Number.Shortest

/-!
# Numbers in JSON

A number without a fraction is written as an integer as long as every integer of its size is a
binary64 number of its own; the sign of zero is dropped.  Any other finite number has its shortest
digits: written out, with a point, when the first digit stands between the hundred-thousandths and
the quadrillions, and with an exponent otherwise.  JSON has no infinities, so these are `null`.
-/

namespace Rowcast.Json

/-- The greatest integer up to which every integer is a binary64 number. -/
def greatestSafeInteger : Nat := 9007199254740991

/-- The first digit's powers of ten that are written out. -/
def leastWrittenOut : Int := -5

def greatestWrittenOut : Int := 15

/-- The magnitude of a number without a fraction, if it is small enough to be exact. -/
def safeMagnitude? (x : Binary64.Finite) : Option Nat :=
  let (n, d) := x.ratio
  if n % d = 0 ∧ n / d ≤ greatestSafeInteger then some (n / d) else none

def zeros (n : Nat) : List Char := List.replicate n '0'

/-- Digits written out, always with a point and a digit at each side of it. -/
def writtenOut (d : Binary64.Digits) : List Char :=
  match d.exponent with
  | .ofNat e =>
    if d.digits.length ≤ e + 1 then d.digits ++ zeros (e + 1 - d.digits.length) ++ ['.', '0']
    else d.digits.take (e + 1) ++ '.' :: d.digits.drop (e + 1)
  | .negSucc e => '0' :: '.' :: zeros e ++ d.digits

/-- Digits with a point after the first, and the power of ten of that first digit. -/
def scientific (d : Binary64.Digits) : List Char :=
  let mantissa := match d.digits with
    | first :: rest@(_ :: _) => first :: '.' :: rest
    | digits => digits
  let sign := if d.exponent < 0 then '-' else '+'
  mantissa ++ 'e' :: sign :: Nat.toDigits 10 d.exponent.natAbs

/-- A magnitude that is no safe integer. -/
def fractionText (d : Binary64.Digits) : List Char :=
  if leastWrittenOut ≤ d.exponent ∧ d.exponent ≤ greatestWrittenOut then writtenOut d
  else scientific d

def numberText : Binary64 → List Char
  | .finite x =>
    match safeMagnitude? x with
    | some n =>
      if x.negative ∧ n ≠ 0 then '-' :: Nat.toDigits 10 n else Nat.toDigits 10 n
    | none =>
      if x.negative then '-' :: fractionText x.shortest else fractionText x.shortest
  | .infinite _ => ['n', 'u', 'l', 'l']
  | .notANumber => ['n', 'u', 'l', 'l']

end Rowcast.Json
