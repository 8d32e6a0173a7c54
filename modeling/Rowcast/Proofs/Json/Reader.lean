import Mathlib
import Rowcast.Proofs.Json.Grammar
import Rowcast.Proofs.Text.Span

/-!
# A reader of JSON

`read?` reads a JSON text by recursive descent: it is the grammar turned into a program.  Each
reader takes what it reads off the front and returns the rest.

Two statements belong to each of them.  What is in its part of the grammar it takes off, if what
follows cannot continue it (`readNumber?_append`); and what it takes off is in its part of the
grammar (`of_readNumber?`).  Only numbers have to look at what follows (`Stops`).  The statements
for numbers stand here, those for strings and values in `Reading`.
-/

namespace Rowcast.Json

open Text

/-! ## The reader -/

def mapRead {α β : Type} (f : α → β) (found : Option (α × List Char)) : Option (β × List Char) :=
  found.map (Prod.map f id)

def skipSpace (s : List Char) : List Char := s.dropWhile isSpace

def expect? (c : Char) : List Char → Option (List Char)
  | [] => none
  | a :: s => if a = c then some s else none

/-- Takes digits off the front, one at least. -/
def readDigits? (s : List Char) : Option (List Char × List Char) :=
  if s.takeWhile Char.isDigit = [] then none
  else some (s.takeWhile Char.isDigit, s.dropWhile Char.isDigit)

def readWhole? : List Char → Option (List Char × List Char)
  | [] => none
  | c :: s => if c = '0' then some (['0'], s) else readDigits? (c :: s)

def readFraction? (s : List Char) : Option (List Char × List Char) :=
  match expect? '.' s with
  | some s => readDigits? s
  | none => some ([], s)

def readPower? (s : List Char) : Option (Int × List Char) :=
  match expect? '-' s with
  | some s => mapRead (fun digits => -(Decimal.ofDigits digits : Int)) (readDigits? s)
  | none => mapRead (fun digits => Decimal.ofDigits digits) (readDigits? ((expect? '+' s).getD s))

def readExponent? (s : List Char) : Option (Int × List Char) :=
  match (expect? 'e' s).or (expect? 'E' s) with
  | some s => readPower? s
  | none => some (0, s)

def readUnsigned? (s : List Char) : Option ((Nat × Int) × List Char) := do
  let (whole, s) ← readWhole? s
  let (digits, s) ← readFraction? s
  let (e, s) ← readExponent? s
  return ((Decimal.ofDigits (whole ++ digits), e - digits.length), s)

def readNumber? (s : List Char) : Option (Decimal × List Char) :=
  match expect? '-' s with
  | some s => mapRead (fun number => ⟨true, number.1, number.2⟩) (readUnsigned? s)
  | none => mapRead (fun number => ⟨false, number.1, number.2⟩) (readUnsigned? s)

def character? (n : Nat) : Option Char :=
  if h : n.isValidChar then some (Char.ofNatAux n h) else none

def readUnit? : List Char → Option (Nat × List Char)
  | a :: b :: c :: d :: s => (codeUnit? a b c d).map fun n => (n, s)
  | _ => none

/-- Takes an escaped low surrogate off the front, to go with a high one. -/
def readLow? (high : Nat) (s : List Char) : Option (Char × List Char) := do
  let s ← expect? 'u' (← expect? '\\' s)
  let (low, s) ← readUnit? s
  if 0xDC00 ≤ low ∧ low < 0xE000 then (character? (pairValue high low)).map fun x => (x, s)
  else none

def readEscape? : List Char → Option (Char × List Char)
  | [] => none
  | c :: s =>
    if c = 'u' then
      match readUnit? s with
      | none => none
      | some (n, s) =>
        if 0xD800 ≤ n ∧ n < 0xDC00 then readLow? n s else (character? n).map fun x => (x, s)
    else (shortEscapes.lookup c).map fun x => (x, s)

def readCharacter? : List Char → Option (Char × List Char)
  | [] => none
  | c :: s =>
    if c = '\\' then readEscape? s
    else if c = '"' ∨ c.toNat < 0x20 then none
    else some (c, s)

/-- Takes characters and the closing quote off the front; `n` bounds their number. -/
def readCharacters? : Nat → List Char → Option (List Char × List Char)
  | 0, _ => none
  | n + 1, s =>
    match expect? '"' s with
    | some s => some ([], s)
    | none => do
      let (x, s) ← readCharacter? s
      let (xs, s) ← readCharacters? n s
      return (x :: xs, s)

def readQuoted? (s : List Char) : Option (String × List Char) := do
  let s ← expect? '"' s
  let (xs, s) ← readCharacters? s.length s
  return (String.ofList xs, s)

/-- Takes parts off the front, with commas between them, and the closing bracket; `n` bounds their
number. -/
def readSeparated? {α : Type} (read : List Char → Option (α × List Char)) (closing : Char) :
    Nat → List Char → Option (List α × List Char)
  | 0, _ => none
  | n + 1, s => do
    let (a, s) ← read s
    match expect? closing s with
    | some s => return ([a], s)
    | none =>
      let (rest, s) ← readSeparated? read closing n (← expect? ',' s)
      return (a :: rest, s)

def readBracketed? {α : Type} (read : List Char → Option (α × List Char)) (closing : Char) (n : Nat)
    (s : List Char) : Option (List α × List Char) :=
  match expect? closing (skipSpace s) with
  | some s => some ([], s)
  | none => readSeparated? read closing n s

def readElementWith? (read : List Char → Option (Document × List Char)) (s : List Char) :
    Option (Document × List Char) := do
  let (d, s) ← read (skipSpace s)
  return (d, skipSpace s)

def readMemberWith? (read : List Char → Option (Document × List Char)) (s : List Char) :
    Option ((String × Document) × List Char) := do
  let (name, s) ← readQuoted? (skipSpace s)
  let s ← expect? ':' (skipSpace s)
  let (d, s) ← readElementWith? read s
  return ((name, d), s)

def readWord? (word : List Char) (d : Document) (s : List Char) : Option (Document × List Char) :=
  if word <+: s then some (d, s.drop word.length) else none

/-- Takes a value off the front; `n` bounds its length. -/
def readValue? : Nat → List Char → Option (Document × List Char)
  | 0, _ => none
  | _, [] => none
  | n + 1, c :: s =>
    if c = 'n' then readWord? ['u', 'l', 'l'] .null s
    else if c = 't' then readWord? ['r', 'u', 'e'] (.boolean true) s
    else if c = 'f' then readWord? ['a', 'l', 's', 'e'] (.boolean false) s
    else if c = '"' then mapRead .text (readQuoted? (c :: s))
    else if c = '[' then mapRead .array (readBracketed? (readElementWith? (readValue? n)) ']' n s)
    else if c = '\x7b' then
      mapRead .object (readBracketed? (readMemberWith? (readValue? n)) '\x7d' n s)
    else mapRead .number (readNumber? (c :: s))

def read? (s : List Char) : Option Document :=
  match readElementWith? (readValue? s.length) s with
  | some (d, []) => some d
  | _ => none

/-! ## Numbers -/

@[simp] theorem expect?_cons (c : Char) (s : List Char) : expect? c (c :: s) = some s := by
  simp [expect?]

theorem expect?_cons_ne {a c : Char} (h : a ≠ c) (s : List Char) : expect? c (a :: s) = none := by
  simp [expect?, h]

@[simp] theorem mapRead_some {α β : Type} (f : α → β) (a : α) (s : List Char) :
    mapRead f (some (a, s)) = some (f a, s) := rfl

theorem exists_of_mapRead {α β : Type} {f : α → β} {found : Option (α × List Char)} {b : β}
    {rest : List Char} (h : mapRead f found = some (b, rest)) :
    ∃ a, found = some (a, rest) ∧ f a = b := by
  obtain ⟨⟨a, s⟩, hfound, heq⟩ := Option.map_eq_some_iff.mp h
  obtain ⟨hf, hs⟩ := Prod.mk.inj heq
  exact ⟨a, hs ▸ hfound, hf⟩

theorem eq_of_expect? {c : Char} {s rest : List Char} (h : expect? c s = some rest) :
    s = c :: rest := by
  cases s with
  | nil => simp [expect?] at h
  | cons a s =>
    by_cases ha : a = c
    · simp [expect?, ha] at h
      rw [ha, h]
    · simp [expect?, ha] at h

def continuesNumber (c : Char) : Bool := c.isDigit || c = '.' || c = 'e' || c = 'E'

theorem stops_isDigit {s : List Char} (h : Stops continuesNumber s) : Stops Char.isDigit s := by
  intro c hc
  have hcontinues := h c hc
  simp only [continuesNumber, Bool.or_eq_false_iff] at hcontinues
  exact hcontinues.1.1.1

theorem stops_eq {a : Char} (ha : continuesNumber a = true) {s : List Char}
    (h : Stops continuesNumber s) : Stops (· = a) s := by
  intro c hc
  apply decide_eq_false
  rintro rfl
  rw [h c hc] at ha
  contradiction

theorem expect?_of_stops {c : Char} {s : List Char} (h : Stops (· = c) s) : expect? c s = none := by
  cases s with
  | nil => rfl
  | cons a s => exact expect?_cons_ne (by simpa using h a rfl) s

theorem readDigits?_append {digits rest : List Char} (hne : digits ≠ [])
    (hdigits : AllDigits digits) (hrest : Stops Char.isDigit rest) :
    readDigits? (digits ++ rest) = some (digits, rest) := by
  obtain ⟨htake, hdrop⟩ := span_append hdigits hrest
  rw [readDigits?, htake, hdrop, if_neg hne]

theorem of_readDigits? {s digits rest : List Char} (h : readDigits? s = some (digits, rest)) :
    s = digits ++ rest ∧ digits ≠ [] ∧ AllDigits digits := by
  unfold readDigits? at h
  split at h
  · simp at h
  · next hne =>
    simp only [Option.some.injEq, Prod.mk.injEq] at h
    obtain ⟨rfl, rfl⟩ := h
    exact ⟨List.takeWhile_append_dropWhile.symm, hne, fun c hc => List.mem_takeWhile_imp hc⟩

theorem readWhole?_append {whole rest : List Char} (h : Whole whole)
    (hrest : Stops Char.isDigit rest) : readWhole? (whole ++ rest) = some (whole, rest) := by
  cases h with
  | zero => rfl
  | @digits first others hfirst hne hothers =>
    have hdigits : AllDigits (first :: others) := List.forall_mem_cons.mpr ⟨hfirst, hothers⟩
    rw [List.cons_append, readWhole?, if_neg hne, ← List.cons_append]
    exact readDigits?_append (List.cons_ne_nil _ _) hdigits hrest

theorem of_readWhole? {s whole rest : List Char} (h : readWhole? s = some (whole, rest)) :
    s = whole ++ rest ∧ Whole whole := by
  cases s with
  | nil => simp [readWhole?] at h
  | cons c s =>
    rw [readWhole?] at h
    split at h
    · next hc =>
      simp only [Option.some.injEq, Prod.mk.injEq] at h
      obtain ⟨rfl, rfl⟩ := h
      exact ⟨by rw [hc]; rfl, .zero⟩
    · next hc =>
      obtain ⟨heq, hne, hdigits⟩ := of_readDigits? h
      cases whole with
      | nil => exact absurd rfl hne
      | cons first others =>
        have hfirst : c = first := (List.cons.inj heq).1
        obtain ⟨hdigit, hothers⟩ := List.forall_mem_cons.mp hdigits
        exact ⟨heq, .digits hdigit (hfirst ▸ hc) hothers⟩

theorem readFraction?_append {fraction digits rest : List Char} (h : Fraction fraction digits)
    (hrest : Stops Char.isDigit rest) (hpoint : Stops (· = '.') rest) :
    readFraction? (fraction ++ rest) = some (digits, rest) := by
  cases h with
  | absent =>
    rw [List.nil_append, readFraction?, expect?_of_stops hpoint]
  | present hne hdigits =>
    rw [List.cons_append, readFraction?, expect?_cons]
    exact readDigits?_append hne hdigits hrest

theorem of_readFraction? {s digits rest : List Char} (h : readFraction? s = some (digits, rest)) :
    ∃ fraction, s = fraction ++ rest ∧ Fraction fraction digits := by
  unfold readFraction? at h
  split at h
  · next s' hs =>
    obtain ⟨heq, hne, hdigits⟩ := of_readDigits? h
    exact ⟨'.' :: digits, by rw [eq_of_expect? hs, heq]; rfl, .present hne hdigits⟩
  · simp only [Option.some.injEq, Prod.mk.injEq] at h
    obtain ⟨rfl, rfl⟩ := h
    exact ⟨[], rfl, .absent⟩

theorem expect?_of_digit {c : Char} (hc : c.isDigit = false) {digits : List Char}
    (hne : digits ≠ []) (hdigits : AllDigits digits) (rest : List Char) :
    expect? c (digits ++ rest) = none := by
  cases digits with
  | nil => exact absurd rfl hne
  | cons d digits =>
    refine expect?_cons_ne ?_ _
    rintro rfl
    rw [hdigits d List.mem_cons_self] at hc
    contradiction

theorem readExponent?_append {t rest : List Char} {e : Int} (h : Exponent t e)
    (hrest : Stops continuesNumber rest) : readExponent? (t ++ rest) = some (e, rest) := by
  have hdigit : Stops Char.isDigit rest := stops_isDigit hrest
  have hmarked : ∀ {mark : Char} (s : List Char), mark = 'e' ∨ mark = 'E' →
      readExponent? (mark :: s) = readPower? s := by
    intro mark s hmark
    rcases hmark with rfl | rfl <;> rfl
  cases h with
  | absent =>
    rw [List.nil_append, readExponent?, expect?_of_stops (stops_eq rfl hrest),
      expect?_of_stops (stops_eq rfl hrest)]
    rfl
  | unsigned hmark hne hdigits =>
    rw [List.cons_append, hmarked _ hmark, readPower?, expect?_of_digit (by decide) hne hdigits,
      expect?_of_digit (by decide) hne hdigits, Option.getD_none,
      readDigits?_append hne hdigits hdigit]
    rfl
  | @plus mark digits hmark hne hdigits =>
    have hminus : expect? '-' ('+' :: (digits ++ rest)) = none := rfl
    rw [List.cons_append, List.cons_append, hmarked _ hmark, readPower?, hminus, expect?_cons,
      Option.getD_some, readDigits?_append hne hdigits hdigit]
    rfl
  | minus hmark hne hdigits =>
    simp only [List.cons_append, hmarked _ hmark, readPower?, expect?_cons,
      readDigits?_append hne hdigits hdigit, mapRead_some]

theorem exponent_of_readPower? {mark : Char} {s rest : List Char} {e : Int}
    (hmark : mark = 'e' ∨ mark = 'E') (h : readPower? s = some (e, rest)) :
    ∃ t, mark :: s = t ++ rest ∧ Exponent t e := by
  unfold readPower? at h
  split at h
  · next s' hs =>
    obtain ⟨digits, hread, rfl⟩ := exists_of_mapRead h
    obtain ⟨rfl, hne, hdigits⟩ := of_readDigits? hread
    exact ⟨mark :: '-' :: digits, by rw [eq_of_expect? hs]; rfl, .minus hmark hne hdigits⟩
  · obtain ⟨digits, hread, rfl⟩ := exists_of_mapRead h
    obtain ⟨hs, hne, hdigits⟩ := of_readDigits? hread
    cases hplus : expect? '+' s with
    | none =>
      rw [hplus, Option.getD_none] at hs
      exact ⟨mark :: digits, by rw [hs]; rfl, .unsigned hmark hne hdigits⟩
    | some s' =>
      rw [hplus, Option.getD_some] at hs
      exact ⟨mark :: '+' :: digits, by rw [eq_of_expect? hplus, hs]; rfl, .plus hmark hne hdigits⟩

theorem of_readExponent? {s rest : List Char} {e : Int} (h : readExponent? s = some (e, rest)) :
    ∃ t, s = t ++ rest ∧ Exponent t e := by
  unfold readExponent? at h
  split at h
  · next s' hs =>
    rcases Option.or_eq_some_iff.mp hs with hlower | ⟨-, hupper⟩
    · rw [eq_of_expect? hlower]
      exact exponent_of_readPower? (.inl rfl) h
    · rw [eq_of_expect? hupper]
      exact exponent_of_readPower? (.inr rfl) h
  · simp only [Option.some.injEq, Prod.mk.injEq] at h
    obtain ⟨rfl, rfl⟩ := h
    exact ⟨[], rfl, .absent⟩

theorem exists_cons_of_whole {whole : List Char} (h : Whole whole) :
    ∃ c s, whole = c :: s ∧ c.isDigit = true := by
  cases h with
  | zero => exact ⟨'0', [], rfl, rfl⟩
  | digits hfirst hne hrest => exact ⟨_, _, rfl, hfirst⟩

theorem stops_of_fraction {t digits : List Char} (h : Fraction t digits) :
    Stops Char.isDigit t := by
  cases h with
  | absent => exact stops_nil _
  | present => exact stops_cons (by decide) _

theorem stops_of_exponent {p : Char → Bool} {t : List Char} {e : Int} (h : Exponent t e)
    (hlower : p 'e' = false) (hupper : p 'E' = false) : Stops p t := by
  have hmarked : ∀ {mark : Char} (s : List Char), mark = 'e' ∨ mark = 'E' →
      Stops p (mark :: s) := by
    intro mark s hmark
    rcases hmark with rfl | rfl
    · exact stops_cons hlower s
    · exact stops_cons hupper s
  cases h with
  | absent => exact stops_nil p
  | unsigned hmark => exact hmarked _ hmark
  | plus hmark => exact hmarked _ hmark
  | minus hmark => exact hmarked _ hmark

theorem readUnsigned?_append {t rest : List Char} {n : Nat} {e : Int} (h : Unsigned t n e)
    (hrest : Stops continuesNumber rest) : readUnsigned? (t ++ rest) = some ((n, e), rest) := by
  cases h with
  | @mk whole fraction digits exponent e hwhole hfraction hexponent =>
    have hdigit : Stops Char.isDigit (exponent ++ rest) :=
      stops_append (stops_of_exponent hexponent rfl rfl) (stops_isDigit hrest)
    have hpoint : Stops (· = '.') (exponent ++ rest) :=
      stops_append (stops_of_exponent hexponent rfl rfl) (stops_eq rfl hrest)
    have hdigit' : Stops Char.isDigit (fraction ++ (exponent ++ rest)) :=
      stops_append (stops_of_fraction hfraction) hdigit
    simp only [readUnsigned?, List.append_assoc, readWhole?_append hwhole hdigit',
      readFraction?_append hfraction hdigit hpoint, readExponent?_append hexponent hrest,
      Option.bind_eq_bind, Option.bind_some, Option.pure_def]

theorem of_readUnsigned? {s rest : List Char} {n : Nat} {e : Int}
    (h : readUnsigned? s = some ((n, e), rest)) : ∃ t, s = t ++ rest ∧ Unsigned t n e := by
  simp only [readUnsigned?, Option.bind_eq_bind, Option.bind_eq_some_iff, Option.pure_def,
    Option.some.injEq, Prod.mk.injEq] at h
  obtain ⟨⟨whole, s₁⟩, h₁, ⟨digits, s₂⟩, h₂, ⟨e', s₃⟩, h₃, ⟨rfl, rfl⟩, rfl⟩ := h
  obtain ⟨rfl, hwhole⟩ := of_readWhole? h₁
  obtain ⟨fraction, rfl, hfraction⟩ := of_readFraction? h₂
  obtain ⟨exponent, rfl, hexponent⟩ := of_readExponent? h₃
  refine ⟨whole ++ (fraction ++ exponent), ?_, .mk hwhole hfraction hexponent⟩
  simp only [List.append_assoc]

theorem exists_cons_of_unsigned {t : List Char} {n : Nat} {e : Int} (h : Unsigned t n e) :
    ∃ c s, t = c :: s ∧ c.isDigit = true := by
  cases h with
  | mk hwhole =>
    obtain ⟨c, s, rfl, hc⟩ := exists_cons_of_whole hwhole
    exact ⟨c, _, rfl, hc⟩

theorem readNumber?_append {t rest : List Char} {d : Decimal} (h : Number t d)
    (hrest : Stops continuesNumber rest) : readNumber? (t ++ rest) = some (d, rest) := by
  cases h with
  | positive h =>
    have hminus : expect? '-' (t ++ rest) = none := by
      obtain ⟨c, s, rfl, hc⟩ := exists_cons_of_unsigned h
      refine expect?_cons_ne ?_ _
      rintro rfl
      contradiction
    simp only [readNumber?, hminus, readUnsigned?_append h hrest, mapRead_some]
  | negative h =>
    simp only [readNumber?, List.cons_append, expect?_cons, readUnsigned?_append h hrest,
      mapRead_some]

theorem of_readNumber? {s rest : List Char} {d : Decimal} (h : readNumber? s = some (d, rest)) :
    ∃ t, s = t ++ rest ∧ Number t d := by
  unfold readNumber? at h
  split at h
  · next s' hs =>
    obtain ⟨⟨n, e⟩, hread, rfl⟩ := exists_of_mapRead h
    obtain ⟨t, rfl, ht⟩ := of_readUnsigned? hread
    exact ⟨'-' :: t, eq_of_expect? hs, .negative ht⟩
  · obtain ⟨⟨n, e⟩, hread, rfl⟩ := exists_of_mapRead h
    obtain ⟨t, rfl, ht⟩ := of_readUnsigned? hread
    exact ⟨t, rfl, .positive ht⟩

end Rowcast.Json
