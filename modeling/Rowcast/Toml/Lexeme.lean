/-!
# The words of a TOML document

Readers take the characters that are left and give back what they read and what is left after it;
`none` means that the characters do not go on as the reader wants.  Strings are read by one pass
over the characters with a small state for escapes.
-/

namespace Rowcast.Toml

/-- What a reader of `α` makes of the characters that are left. -/
abbrev Reading (α : Type) := Option (α × List Char)

/-- Blank space within a line. -/
def isGap (c : Char) : Bool := c == ' ' || c == '\t'

def skipGap (s : List Char) : List Char := s.dropWhile isGap

/-- Characters that comments and strings may hold: all but the control characters, of which the
tabulation alone is allowed. -/
def isPlain (c : Char) : Bool := c == '\t' || (0x20 ≤ c.toNat && c.toNat != 0x7F)

def lineBreak? : List Char → Option (List Char)
  | '\n' :: s => some s
  | '\r' :: '\n' :: s => some s
  | _ => none

/-- Passes over a comment if one starts here; it runs to the end of its line. -/
def skipComment? : List Char → Option (List Char)
  | '#' :: s =>
    let rest := s.dropWhile isPlain
    if rest.isEmpty || (lineBreak? rest).isSome then some rest else none
  | s => some s

def hexDigit? (c : Char) : Option Nat :=
  if c.isDigit then some (c.toNat - 48)
  else if 'a' ≤ c ∧ c ≤ 'f' then some (c.toNat - 87)
  else if 'A' ≤ c ∧ c ≤ 'F' then some (c.toNat - 55)
  else none

def shortEscape? (c : Char) : Option Char :=
  if c = 'b' then some '\x08'
  else if c = 't' then some '\t'
  else if c = 'n' then some '\n'
  else if c = 'f' then some '\x0c'
  else if c = 'r' then some '\r'
  else if c = 'e' then some '\x1b'
  else if c = '"' then some '"'
  else if c = '\\' then some '\\'
  else none

/-- How many digits follow a letter after a backslash. -/
def escapeLength? (c : Char) : Option Nat :=
  if c = 'x' then some 2 else if c = 'u' then some 4 else if c = 'U' then some 8 else none

def character? (n : Nat) : Option Char :=
  if n.isValidChar then some (Char.ofNat n) else none

inductive Mode where
  | text
  | escaped
  /-- In the digits of a character's number: how many are left, and the number so far. -/
  | code (left value : Nat)
  /-- In the blank space after a backslash at the end of a line; holds from the line break on. -/
  | gap (broken : Bool)

def withChar (c : Char) : Reading (List Char) → Reading (List Char) :=
  Option.map fun (cs, rest) => (c :: cs, rest)

/-- Reads the rest of a string on one line, up to its closing quote. -/
def basicRest : Mode → List Char → Reading (List Char)
  | _, [] => none
  | .escaped, c :: s =>
    match shortEscape? c, escapeLength? c with
    | some x, _ => withChar x (basicRest .text s)
    | none, some n => basicRest (.code n 0) s
    | none, none => none
  | .code left value, c :: s =>
    match hexDigit? c with
    | none => none
    | some d =>
      if left ≤ 1 then
        match character? (16 * value + d) with
        | none => none
        | some x => withChar x (basicRest .text s)
      else basicRest (.code (left - 1) (16 * value + d)) s
  | _, c :: s =>
    if c = '"' then some ([], s)
    else if c = '\\' then basicRest .escaped s
    else if isPlain c then withChar c (basicRest .text s)
    else none

/-- Splits off the quotes, two at most, that may stand before the three that close a string. -/
def closingQuotes (quote : Char) : List Char → List Char × List Char
  | a :: b :: s =>
    if a = quote then (if b = quote then ([a, b], s) else ([a], b :: s)) else ([], a :: b :: s)
  | [a] => if a = quote then ([a], []) else ([], [a])
  | [] => ([], [])

def twoQuotes (quote : Char) (s : List Char) : Bool := s.take 2 == [quote, quote]

/-- Reads the rest of a string of several lines, up to its three closing quotes. -/
def longBasicRest : Mode → List Char → Reading (List Char)
  | _, [] => none
  | .escaped, c :: s =>
    if isGap c then longBasicRest (.gap false) s
    else if c = '\n' then longBasicRest (.gap true) s
    else if c = '\r' then
      if s.head? = some '\n' then longBasicRest (.gap false) s else none
    else
      match shortEscape? c, escapeLength? c with
      | some x, _ => withChar x (longBasicRest .text s)
      | none, some n => longBasicRest (.code n 0) s
      | none, none => none
  | .code left value, c :: s =>
    match hexDigit? c with
    | none => none
    | some d =>
      if left ≤ 1 then
        match character? (16 * value + d) with
        | none => none
        | some x => withChar x (longBasicRest .text s)
      else longBasicRest (.code (left - 1) (16 * value + d)) s
  | .gap broken, c :: s =>
    if isGap c then longBasicRest (.gap broken) s
    else if c = '\n' then longBasicRest (.gap true) s
    else if c = '\r' && s.head? = some '\n' then longBasicRest (.gap broken) s
    else if !broken then none
    else if c = '"' && twoQuotes '"' s then some (closingQuotes '"' (s.drop 2))
    else if c = '\\' then longBasicRest .escaped s
    else if isPlain c then withChar c (longBasicRest .text s)
    else none
  | .text, c :: s =>
    if c = '"' && twoQuotes '"' s then some (closingQuotes '"' (s.drop 2))
    else if c = '\\' then longBasicRest .escaped s
    else if c = '\n' || (c = '\r' && s.head? = some '\n') || isPlain c then
      withChar c (longBasicRest .text s)
    else none

/-- The quote of a string without escapes. -/
def apostrophe : Char := '\x27'

/-- Reads the rest of a string without escapes, up to its closing quote. -/
def literalRest : List Char → Reading (List Char)
  | [] => none
  | c :: s =>
    if c = apostrophe then some ([], s)
    else if isPlain c then withChar c (literalRest s)
    else none

def longLiteralRest : List Char → Reading (List Char)
  | [] => none
  | c :: s =>
    if c = apostrophe && twoQuotes apostrophe s then some (closingQuotes apostrophe (s.drop 2))
    else if c = '\n' || (c = '\r' && s.head? = some '\n') || isPlain c then
      withChar c (longLiteralRest s)
    else none

/-- A line break right after the opening quotes is no content. -/
def skipFirstBreak (s : List Char) : List Char := (lineBreak? s).getD s

/-- Reads a string of any of the four forms, its opening quotes included. -/
def string? (s : List Char) : Reading String :=
  let chars := match s with
    | '"' :: rest =>
      if twoQuotes '"' rest then longBasicRest .text (skipFirstBreak (rest.drop 2))
      else basicRest .text rest
    | c :: rest =>
      if c = apostrophe then
        if twoQuotes apostrophe rest then longLiteralRest (skipFirstBreak (rest.drop 2))
        else literalRest rest
      else none
    | [] => none
  chars.map fun (cs, rest) => (String.ofList cs, rest)

def isBareKey (c : Char) : Bool := c.isAlphanum || c == '_' || c == '-'

def keyPart? (s : List Char) : Reading String :=
  match s with
  | [] => none
  | c :: rest =>
    if c = '"' then (basicRest .text rest).map fun (cs, rest) => (String.ofList cs, rest)
    else if c = apostrophe then (literalRest rest).map fun (cs, rest) => (String.ofList cs, rest)
    else if isBareKey c then
      some (String.ofList (s.takeWhile isBareKey), s.dropWhile isBareKey)
    else none

/-- Reads a key of at most `parts` parts with points between them. -/
def key? : Nat → List Char → Reading (List String)
  | 0, _ => none
  | parts + 1, s =>
    match keyPart? s with
    | none => none
    | some (part, rest) =>
      match skipGap rest with
      | '.' :: more => (key? parts (skipGap more)).map fun (path, rest) => (part :: path, rest)
      | rest => some ([part], rest)

end Rowcast.Toml
