import Rowcast.Toml.Lexeme
import Rowcast.Toml.Value

/-!
# Numbers, truth values and points in time

These are written without quotes, so they end where a character comes that none of them has.
Digits may be grouped by single underscores, integers may be written in base two, eight and
sixteen, and a decimal integer has no leading zero.
-/

namespace Rowcast.Toml

/-- Characters that values without quotes are made of. -/
def isWord (c : Char) : Bool :=
  c.isAlphanum || c == '_' || c == '-' || c == '+' || c == '.' || c == ':'

/-- The digits of a group that single underscores divide, if each of them is below the base. -/
def groupedDigits? (base : Nat) (s : List Char) : Option (List Nat) :=
  if (s.splitOn '_').all fun group => !group.isEmpty then
    (s.filter (· != '_')).mapM fun c => (hexDigit? c).filter (· < base)
  else none

def ofDigits (base : Nat) (digits : List Nat) : Nat := digits.foldl (fun n d => base * n + d) 0

/-- Splits a sign off; holds for a minus. -/
def sign : List Char → Bool × List Char
  | '-' :: s => (true, s)
  | '+' :: s => (false, s)
  | s => (false, s)

/-- Reads decimal digits without a leading zero. -/
def decimalDigits? (s : List Char) : Option Nat :=
  if s.length ≠ 1 ∧ s.head? = some '0' then none
  else (groupedDigits? 10 s).map (ofDigits 10)

def integer? (s : List Char) : Option Int :=
  match s with
  | '0' :: 'x' :: digits => (groupedDigits? 16 digits).map fun ds => (ofDigits 16 ds : Nat)
  | '0' :: 'o' :: digits => (groupedDigits? 8 digits).map fun ds => (ofDigits 8 ds : Nat)
  | '0' :: 'b' :: digits => (groupedDigits? 2 digits).map fun ds => (ofDigits 2 ds : Nat)
  | s =>
    let (negative, digits) := sign s
    (decimalDigits? digits).map fun n => if negative then -(n : Int) else n

def isExponentMark (c : Char) : Bool := c == 'e' || c == 'E'

def isFloat (s : List Char) : Bool :=
  let (_, s) := sign s
  let word := String.ofList s
  if word = "inf" ∨ word = "nan" then true
  else
    let isGroup (s : List Char) := (groupedDigits? 10 s).isSome
    let mantissa := s.takeWhile fun c => !isExponentMark c
    let exponent := s.drop mantissa.length
    let whole := mantissa.takeWhile (· != '.')
    let fraction := mantissa.drop whole.length
    (decimalDigits? whole).isSome &&
      (fraction.isEmpty || isGroup fraction.tail) &&
      (exponent.isEmpty || isGroup (sign exponent.tail).2) &&
      !(fraction.isEmpty && exponent.isEmpty)

/-- The shape of a word: every digit becomes a zero. -/
def shape (s : List Char) : String := String.ofList (s.map fun c => if c.isDigit then '0' else c)

/-- Whether a word has the form of a time of day; the seconds and their fraction may be absent. -/
def isTime (s : List Char) : Bool :=
  let whole := s.takeWhile (· != '.')
  let fraction := s.drop whole.length
  (shape whole = "00:00:00" && (fraction.isEmpty ||
      (!fraction.tail.isEmpty && fraction.tail.all Char.isDigit))) ||
    shape s = "00:00"

def isOffsetTime (s : List Char) : Bool :=
  isTime s ||
    ((s.getLast? = some 'Z' || s.getLast? = some 'z') && isTime s.dropLast) ||
    (let offset := shape (s.drop (s.length - 6))
     (offset = "+00:00" || offset = "-00:00") && isTime (s.take (s.length - 6)))

def isDate (s : List Char) : Bool := shape s = "0000-00-00"

/-- Whether a word has the form of a date, a time of day or both. -/
def isMoment (s : List Char) : Bool :=
  isTime s || isDate s ||
    (isDate (s.take 10) &&
      match s.drop 10 with
      | c :: time => (c == 'T' || c == 't' || c == ' ') && isOffsetTime time
      | [] => false)

/-- Splits a word off. A date may be followed by a space and a time. -/
def splitWord (s : List Char) : List Char × List Char :=
  let word := s.takeWhile isWord
  let rest := s.drop word.length
  match rest with
  | ' ' :: a :: b :: ':' :: _ =>
    if isDate word ∧ a.isDigit ∧ b.isDigit then
      let time := rest.tail.takeWhile isWord
      (word ++ ' ' :: time, rest.tail.drop time.length)
    else (word, rest)
  | _ => (word, rest)

def ofWord? (word : List Char) : Option Value :=
  let name := String.ofList word
  if name = "true" then some (.boolean true)
  else if name = "false" then some (.boolean false)
  else match integer? word with
    | some n => some (.integer n)
    | none => if isFloat word || isMoment word then some .other else none

end Rowcast.Toml
