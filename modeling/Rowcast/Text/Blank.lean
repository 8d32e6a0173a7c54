/-!
# Blank space

Unicode calls twenty-five characters white space.  Column definitions, numbers, paths and trimmed
fields all lose exactly these at their two ends; spaces of width zero are not among them.
-/

namespace Rowcast.Text

/-- The characters with the Unicode property White_Space. -/
def isBlank (c : Char) : Bool :=
  let n := c.toNat
  (0x09 ≤ n && n ≤ 0x0D) || n == 0x20 || n == 0x85 || n == 0xA0 || n == 0x1680 ||
    (0x2000 ≤ n && n ≤ 0x200A) || n == 0x2028 || n == 0x2029 || n == 0x202F || n == 0x205F ||
    n == 0x3000

def dropEnd {α : Type} (p : α → Bool) (s : List α) : List α := (s.reverse.dropWhile p).reverse

/-- Drops what satisfies `p` from both ends of a list. -/
def strip {α : Type} (p : α → Bool) (s : List α) : List α := dropEnd p (s.dropWhile p)

def trim (s : String) : String := String.ofList (strip isBlank s.toList)

/-- Holds of texts of blank space only, the empty one included. -/
def isAllBlank (s : String) : Bool := s.toList.all isBlank

/-- Upper case letters of ASCII become lower case, and all else stays. -/
def lowerAscii (s : List Char) : List Char := s.map Char.toLower

def eqIgnoringAsciiCase (s t : String) : Bool := lowerAscii s.toList == lowerAscii t.toList

end Rowcast.Text
