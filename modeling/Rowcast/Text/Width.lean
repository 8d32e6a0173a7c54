import Rowcast.Text.Width.Classes

/-!
# Terminal width

`width` says how many columns a text takes on a terminal.  Most characters take one column, some
take two and some none, but the width of a text is more than a sum: a heart and a selector make an
emoji of two columns, emoji joined to each other take two together, and letters of several scripts
fuse.  So the text is read from its end, and `columnsBefore` says what a character adds in front of
what follows it.  A character of ASCII always adds one column there, except for a carriage return
in front of a line feed and a digit that a selector makes an emoji.
-/

namespace Rowcast.Text

/-- What the text right of a character begins with, as far as the character's width depends on
it.  The letters carry whether a zero width joiner stands in front of them. -/
inductive Right where
  | plain
  | lineFeed
  | textSelector
  /-- A selector that asks for an emoji; holds where a joiner and an emoji follow it. -/
  | emojiSelector (joined : Bool)
  | emoji
  /-- A joiner in front of an emoji. -/
  | joinedEmoji
  | skinTone
  | flag
  | arabicAlef
  | coengLetter
  | hebrewLamed (joined : Bool)
  | bugineseYa (joined : Bool)
  | bugineseVowelYa
  | tifinagh (joined : Bool)
  | tifinaghJoiner
  | lisuTone
  | orkhonI (joined : Bool)
  deriving DecidableEq

namespace Right

/-- Whether letters join across ignorable marks in front of what follows. -/
def seesAcrossMarks : Right → Bool
  | coengLetter | hebrewLamed _ | bugineseYa _ | bugineseVowelYa | tifinagh _ | tifinaghJoiner
  | lisuTone | orkhonI _ => true
  | _ => false

def afterJoiner : Right → Right
  | emoji | flag | skinTone => joinedEmoji
  | hebrewLamed _ => hebrewLamed true
  | bugineseYa _ => bugineseYa true
  | tifinagh _ => tifinagh true
  | orkhonI _ => orkhonI true
  | _ => plain

def afterEmojiSelector : Right → Right
  | joinedEmoji => emojiSelector true
  | _ => emojiSelector false

end Right

def isFlagLetter (n : Nat) : Bool := 0x1F1E6 ≤ n && n ≤ 0x1F1FF

def isSkinTone (n : Nat) : Bool := 0x1F3FB ≤ n && n ≤ 0x1F3FF

/-- The columns of the character numbered `n` by itself. -/
def columnsOf (n : Nat) : Nat :=
  if n ≤ 0xA0 then 1
  else if n = 0x17D8 then 3
  else if WidthClass.zeroWidth.has n then 0
  else if WidthClass.wide.has n then 2
  else 1

/-- What the character numbered `n` means for the one in front of it. -/
def rightOf (n : Nat) : Right :=
  if n ≤ 0xA0 then (if n = 0x0A then .lineFeed else .plain)
  else if n = 0xFE0E then .textSelector
  else if n = 0xFE0F then .emojiSelector false
  else if isFlagLetter n then .flag
  else if isSkinTone n then .skinTone
  else if WidthClass.emojiPresentation.has n then .emoji
  else if WidthClass.arabicAlef.has n then .arabicAlef
  else if WidthClass.coengLetter.has n then .coengLetter
  else if WidthClass.tifinaghConsonant.has n then .tifinagh false
  else if n = 0x05DC then .hebrewLamed false
  else if n = 0x1A10 then .bugineseYa false
  else if n = 0xA4FC ∨ n = 0xA4FD then .lisuTone
  else if n = 0x10C03 then .orkhonI false
  else .plain

/-- What the letter or sign numbered `n` adds where it fuses with what follows it. -/
def fused? (n : Nat) : Right → Option (Int × Right)
  | .arabicAlef =>
    if WidthClass.arabicLam.has n then some (0, .plain)
    else if WidthClass.zeroWidth.has n && !WidthClass.joinBlocking.has n then some (0, .arabicAlef)
    else none
  | .coengLetter => if n = 0x17D2 then some (-1, .plain) else none
  | .hebrewLamed true => if n = 0x05D0 then some (0, .plain) else none
  | .bugineseYa true => if n = 0x1A17 then some (0, .bugineseVowelYa) else none
  | .bugineseVowelYa => if n = 0x1A15 then some (0, .plain) else none
  | .tifinagh joined =>
    if n = 0x2D7F then some (1, .tifinaghJoiner)
    else if joined && WidthClass.tifinaghConsonant.has n then some (0, .plain)
    else none
  | .tifinaghJoiner => if WidthClass.tifinaghConsonant.has n then some (-1, .plain) else none
  | .lisuTone => if 0xA4F8 ≤ n ∧ n ≤ 0xA4FB then some (0, .plain) else none
  | .orkhonI true => if n = 0x10C32 then some (0, .plain) else none
  | .skinTone => if WidthClass.modifierBase.has n then some (0, .emoji) else none
  | .joinedEmoji =>
    if isSkinTone n then some (0, .skinTone)
    else if WidthClass.emojiPresentation.has n then some (0, .emoji)
    else none
  | .textSelector => if WidthClass.textCapable.has n then some (1, .plain) else none
  | _ => none

def columnsBeforeHigh (n : Nat) (right : Right) : Int × Right :=
  match fused? n right with
  | some result => result
  | none =>
    if right.seesAcrossMarks && WidthClass.ignorableMark.has n then (0, right)
    else if n = 0x200D then (0, right.afterJoiner)
    else if n = 0xFE0F then (0, right.afterEmojiSelector)
    else (columnsOf n, rightOf n)

/-- What a character adds in front of what follows it, and what it means for the next one. -/
def columnsBefore (c : Char) (right : Right) : Int × Right :=
  let n := c.toNat
  match right with
  | .emojiSelector joined =>
    if WidthClass.emoji.has n then (if joined then 0 else 2, .emoji)
    else if n ≤ 0xA0 then (1, rightOf n)
    else columnsBeforeHigh n (if joined then .joinedEmoji else .plain)
  | .lineFeed => if n = 0x0D then (0, .plain) else if n ≤ 0xA0 then (1, rightOf n)
    else columnsBeforeHigh n .plain
  | right => if n ≤ 0xA0 then (1, rightOf n) else columnsBeforeHigh n right

def measure (s : List Char) : Int × Right :=
  s.foldr (fun c (columns, right) =>
    let (more, right) := columnsBefore c right
    (columns + more, right)) (0, .plain)

/-- How many columns a text takes on a terminal. -/
def width (s : List Char) : Nat := (measure s).1.toNat

/-- A control character: it has no width of its own, though in a text it counts for one column. -/
def isControl (c : Char) : Bool := c.toNat < 0x20 || (0x7F ≤ c.toNat && c.toNat < 0xA0)

inductive Escape where
  /-- In visible text. -/
  | outside
  /-- Right after the escape character. -/
  | begun
  /-- Between the bracket and the final letter. -/
  | inside
  deriving DecidableEq

/-- How many characters of a text that starts at `escape` belong to colour sequences and would
otherwise take room. A sequence runs from the bracket after an escape character to the next `m`. -/
def hiddenFrom : Escape → List Char → Nat
  | _, [] => 0
  | .outside, c :: s => if c = '\x1b' then hiddenFrom .begun s else hiddenFrom .outside s
  | .begun, c :: s =>
    if c = '[' then hiddenFrom .inside s + 1 else hiddenFrom .outside s
  | .inside, c :: s =>
    let rest := if c = 'm' then hiddenFrom .outside s else hiddenFrom .inside s
    if isControl c || columnsOf c.toNat == 0 then rest else rest + 1

def hidden (s : List Char) : Nat := hiddenFrom .outside s

/-- The columns of a text that are left when the hidden characters of colour sequences are taken
off. -/
def visibleWidth (s : List Char) : Nat := width s - hidden s

/-- Whether a text hides no more columns than it has. Letters that fuse inside a colour sequence
can hide more. -/
def hasVisibleWidth (s : List Char) : Bool := hidden s ≤ width s

end Rowcast.Text
