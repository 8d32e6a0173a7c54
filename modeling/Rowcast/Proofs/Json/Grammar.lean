import Mathlib
import Rowcast.Number.Decimal

/-!
# The grammar of JSON

A JSON text is a value with space around it, and it stands for a `Document`: this is the grammar of
RFC 8259 with the meaning of each production beside it.  A relation `P t a` reads "the characters
`t` spell `a`".  A number spells a decimal, digit by digit and without rounding.  An array keeps the
order of its items and an object that of its members, repeated names among them.

Two places leave a choice.  A text whose escapes spell half of a surrogate pair belongs to the
grammar, but such a half is no character; here it spells nothing.  The space that the standard
gives to brackets, commas and colons is given to the values and names between them, which allows
the same texts.
-/

namespace Rowcast.Json

inductive Document where
  | null
  | boolean (b : Bool)
  | number (d : Decimal)
  | text (s : String)
  | array (items : List Document)
  | object (members : List (String × Document))

/-- A character that may stand between tokens. -/
def isSpace (c : Char) : Bool := c = ' ' || c = '\t' || c = '\n' || c = '\r'

def Space (s : List Char) : Prop := ∀ c ∈ s, isSpace c = true

def AllDigits (s : List Char) : Prop := ∀ c ∈ s, c.isDigit = true

/-! ## Numbers -/

/-- The digits before the point: no zero stands in front of another digit. -/
inductive Whole : List Char → Prop
  | zero : Whole ['0']
  | digits {first : Char} {rest : List Char} (hfirst : first.isDigit = true) (hne : first ≠ '0')
      (hrest : AllDigits rest) : Whole (first :: rest)

/-- A point and the digits after it, or neither. -/
inductive Fraction : List Char → List Char → Prop
  | absent : Fraction [] []
  | present {digits : List Char} (hne : digits ≠ []) (hdigits : AllDigits digits) :
      Fraction ('.' :: digits) digits

inductive Exponent : List Char → Int → Prop
  | absent : Exponent [] 0
  | unsigned {mark : Char} {digits : List Char} (hmark : mark = 'e' ∨ mark = 'E')
      (hne : digits ≠ []) (hdigits : AllDigits digits) :
      Exponent (mark :: digits) (Decimal.ofDigits digits)
  | plus {mark : Char} {digits : List Char} (hmark : mark = 'e' ∨ mark = 'E')
      (hne : digits ≠ []) (hdigits : AllDigits digits) :
      Exponent (mark :: '+' :: digits) (Decimal.ofDigits digits)
  | minus {mark : Char} {digits : List Char} (hmark : mark = 'e' ∨ mark = 'E')
      (hne : digits ≠ []) (hdigits : AllDigits digits) :
      Exponent (mark :: '-' :: digits) (-(Decimal.ofDigits digits : Int))

/-- A number without a sign, as the digits of its coefficient and a power of ten. -/
inductive Unsigned : List Char → Nat → Int → Prop
  | mk {whole fraction digits exponent : List Char} {e : Int} (hwhole : Whole whole)
      (hfraction : Fraction fraction digits) (hexponent : Exponent exponent e) :
      Unsigned (whole ++ (fraction ++ exponent)) (Decimal.ofDigits (whole ++ digits))
        (e - digits.length)

inductive Number : List Char → Decimal → Prop
  | positive {t : List Char} {n : Nat} {e : Int} (h : Unsigned t n e) : Number t ⟨false, n, e⟩
  | negative {t : List Char} {n : Nat} {e : Int} (h : Unsigned t n e) :
      Number ('-' :: t) ⟨true, n, e⟩

/-! ## Strings -/

def shortEscapes : List (Char × Char) :=
  [('"', '"'), ('\\', '\\'), ('/', '/'), ('b', '\x08'), ('f', '\x0c'), ('n', '\n'), ('r', '\r'),
    ('t', '\t')]

def hexValue? (c : Char) : Option Nat :=
  if '0' ≤ c ∧ c ≤ '9' then some (c.toNat - 48)
  else if 'a' ≤ c ∧ c ≤ 'f' then some (c.toNat - 87)
  else if 'A' ≤ c ∧ c ≤ 'F' then some (c.toNat - 55)
  else none

def codeUnit? (a b c d : Char) : Option Nat := do
  return (((← hexValue? a) * 16 + (← hexValue? b)) * 16 + (← hexValue? c)) * 16 + (← hexValue? d)

def IsHigh (n : Nat) : Prop := 0xD800 ≤ n ∧ n < 0xDC00

def IsLow (n : Nat) : Prop := 0xDC00 ≤ n ∧ n < 0xE000

def pairValue (high low : Nat) : Nat := 0x10000 + (high - 0xD800) * 0x400 + (low - 0xDC00)

inductive Character : List Char → Char → Prop
  | plain {x : Char} (hcontrol : 0x20 ≤ x.toNat) (hquote : x ≠ '"') (hbackslash : x ≠ '\\') :
      Character [x] x
  | short {letter x : Char} (h : (letter, x) ∈ shortEscapes) : Character ['\\', letter] x
  | unit {a b c d x : Char} (h : codeUnit? a b c d = some x.toNat) :
      Character ['\\', 'u', a, b, c, d] x
  | pair {a b c d a' b' c' d' x : Char} {high low : Nat} (h : codeUnit? a b c d = some high)
      (h' : codeUnit? a' b' c' d' = some low) (hhigh : IsHigh high) (hlow : IsLow low)
      (hx : x.toNat = pairValue high low) :
      Character ['\\', 'u', a, b, c, d, '\\', 'u', a', b', c', d'] x

inductive Characters : List Char → List Char → Prop
  | nil : Characters [] []
  | cons {t u s : List Char} {x : Char} (h : Character t x) (hrest : Characters u s) :
      Characters (t ++ u) (x :: s)

inductive Quoted : List Char → String → Prop
  | mk {t s : List Char} (h : Characters t s) : Quoted ('"' :: (t ++ ['"'])) (String.ofList s)

/-! ## Values -/

/-- One or more parts with commas between them. -/
inductive Separated {α : Type} (P : List Char → α → Prop) : List Char → List α → Prop
  | one {t : List Char} {a : α} (h : P t a) : Separated P t [a]
  | more {t u : List Char} {a : α} {rest : List α} (h : P t a) (hrest : Separated P u rest) :
      Separated P (t ++ ',' :: u) (a :: rest)

/-- Brackets with nothing but space between them, or around parts. -/
inductive Bracketed {α : Type} (P : List Char → α → Prop) (opening closing : Char) :
    List Char → List α → Prop
  | empty {space : List Char} (h : Space space) :
      Bracketed P opening closing (opening :: (space ++ [closing])) []
  | parts {t : List Char} {items : List α} (h : Separated P t items) :
      Bracketed P opening closing (opening :: (t ++ [closing])) items

mutual

/-- A value by itself. -/
inductive Bare : List Char → Document → Prop
  | null : Bare ['n', 'u', 'l', 'l'] .null
  | yes : Bare ['t', 'r', 'u', 'e'] (.boolean true)
  | no : Bare ['f', 'a', 'l', 's', 'e'] (.boolean false)
  | number {t : List Char} {d : Decimal} (h : Number t d) : Bare t (.number d)
  | text {t : List Char} {s : String} (h : Quoted t s) : Bare t (.text s)
  | array {t : List Char} {items : List Document} (h : Bracketed Element '[' ']' t items) :
      Bare t (.array items)
  | object {t : List Char} {members : List (String × Document)}
      (h : Bracketed Member '\x7b' '\x7d' t members) : Bare t (.object members)

/-- A value with the space around it. -/
inductive Element : List Char → Document → Prop
  | mk {before t after : List Char} {d : Document} (hbefore : Space before) (h : Bare t d)
      (hafter : Space after) : Element (before ++ (t ++ after)) d

/-- A name with the space around it, a colon, and an element. -/
inductive Member : List Char → String × Document → Prop
  | mk {before t after u : List Char} {name : String} {d : Document} (hbefore : Space before)
      (hname : Quoted t name) (hafter : Space after) (h : Element u d) :
      Member (before ++ (t ++ (after ++ ':' :: u))) (name, d)

end

end Rowcast.Json
