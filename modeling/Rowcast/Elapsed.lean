import Rowcast.Number.Binary64

/-!
# Elapsed time

A duration shows as milliseconds with two places.  The seconds are first taken as a binary64
number: the whole seconds and the nanoseconds are each rounded to one, then their sum, then its
thousandfold.  The places of that number are exact, half a hundredth going to the even neighbour.
-/

namespace Rowcast

/-- A duration of whole seconds, of which sixty-four bits hold the number, and nanoseconds. -/
structure Duration where
  seconds : Nat
  nanoseconds : Nat
  seconds_lt : seconds < UInt64.size
  nanoseconds_lt : nanoseconds < 1000000000

namespace Duration

/-- A duration of seconds and any number of nanoseconds. -/
def ofParts? (seconds nanoseconds : Nat) : Option Duration :=
  if h : seconds + nanoseconds / 1000000000 < UInt64.size then
    some ⟨seconds + nanoseconds / 1000000000, nanoseconds % 1000000000, h,
      Nat.mod_lt _ (by decide)⟩
  else none

/-- The binary64 number that is nearest to a fraction, as a fraction. -/
def nearest (n d : Nat) : Nat × Nat :=
  match Binary64.ofRatio false n d with
  | .finite x => x.ratio
  | _ => (n, d)

def milliseconds (t : Duration) : Nat × Nat :=
  let (a, b) := nearest t.seconds 1
  let (c, d) := nearest t.nanoseconds 1000000000
  let (n, m) := nearest (a * d + c * b) (b * d)
  nearest (n * 1000) m

def hundredths (n : Nat) : List Char :=
  Nat.toDigits 10 (n / 100) ++
    ['.', Nat.digitChar (n / 10 % 10), Nat.digitChar (n % 10)]

def text (t : Duration) : String :=
  let (n, d) := t.milliseconds
  String.ofList (hundredths (roundDiv (n * 100) d)) ++ " ms"

end Duration

end Rowcast
