import Rowcast.Number.Binary64

/-!
# Decimal literals

A literal is an optional sign, digits with at most one point among them, and an optional exponent
of ten.  `Decimal.read?` takes it apart into an integer and a power of ten and loses nothing, so
that `Decimal.toBinary64` rounds once.  A written exponent stops growing after five digits of
value: by then the number is far outside of what binary64 can tell from zero or infinity.
-/

namespace Rowcast

/-- The number `± coefficient * 10 ^ exponent`. -/
structure Decimal where
  negative : Bool
  coefficient : Nat
  exponent : Int
  deriving DecidableEq

namespace Decimal

def digitValue (c : Char) : Nat := c.toNat - 48

def ofDigits (digits : List Char) : Nat :=
  digits.foldl (fun n c => 10 * n + digitValue c) 0

/-- Splits a sign off; holds for a minus. -/
def readSign : List Char → Bool × List Char
  | '-' :: s => (true, s)
  | '+' :: s => (false, s)
  | s => (false, s)

/-- Where an exponent stops growing. -/
def exponentBound : Nat := 0x10000

/-- The size of a written exponent: a digit counts only while the number before it is below the
bound. -/
def boundedExponent (digits : List Char) : Nat :=
  digits.foldl (fun n c => if n < exponentBound then 10 * n + digitValue c else n) 0

/-- Reads what may follow the digits of a literal: nothing, or an exponent. -/
def readExponent? : List Char → Option Int
  | [] => some 0
  | c :: s =>
    let (negative, digits) := readSign s
    if (c == 'e' || c == 'E') && !digits.isEmpty && digits.all Char.isDigit then
      let n : Int := boundedExponent digits
      some (if negative then -n else n)
    else none

def readFraction : List Char → List Char × List Char
  | '.' :: s => (s.takeWhile Char.isDigit, s.dropWhile Char.isDigit)
  | s => ([], s)

/-- Reads a literal; there must be a digit before or after the point. -/
def read? (s : List Char) : Option Decimal :=
  let (negative, s) := readSign s
  let whole := s.takeWhile Char.isDigit
  let (fraction, s) := readFraction (s.dropWhile Char.isDigit)
  if whole.isEmpty && fraction.isEmpty then none
  else (readExponent? s).map fun e =>
    ⟨negative, ofDigits (whole ++ fraction), e - fraction.length⟩

def toBinary64 (d : Decimal) : Binary64 :=
  match d.exponent with
  | .ofNat k => .ofRatio d.negative (d.coefficient * Nat.pow 10 k) 1
  | .negSucc k => .ofRatio d.negative d.coefficient (Nat.pow 10 (k + 1))

end Decimal

/-- Reads a literal, or one of the words for an infinity and for what is not a number. -/
def Binary64.read? (s : List Char) : Option Binary64 :=
  match Decimal.read? s with
  | some d => some d.toBinary64
  | none =>
    let (negative, word) := Decimal.readSign s
    let word := String.ofList (word.map Char.toLower)
    if word = "inf" ∨ word = "infinity" then some (.infinite negative)
    else if word = "nan" then some .notANumber
    else none

end Rowcast
