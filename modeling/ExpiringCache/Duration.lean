import ExpiringCache.Instant

/-!
Spans of time in nanoseconds, their whole milliseconds, and their text: `1.5s`, `999.999µs`, `0ns`.
-/
namespace ExpiringCache
set_option autoImplicit false

structure Duration where
  nanos : Nat
deriving DecidableEq, Inhabited

namespace Duration

def ofNanos (n : Nat) : Duration := ⟨n⟩

def ofMillis (n : Nat) : Duration := ⟨n * 1000000⟩

def ofSecs (n : Nat) : Duration := ⟨n * 1000000000⟩

def secs (d : Duration) : Nat := d.nanos / 1000000000

def subsecNanos (d : Duration) : Nat := d.nanos % 1000000000

def wholeMillis (d : Duration) : Nat := d.nanos / 1000000

/-- Whole milliseconds as a span between instants; a longer span counts as the longest one. -/
def toSpan (d : Duration) : Int64 := Int64.ofIntClamp d.wholeMillis

theorem toInt_toSpan (d : Duration) :
    d.toSpan.toInt = min 0x7fffffffffffffff (d.wholeMillis : Int) := by
  rw [toSpan, Instant.toInt_ofIntClamp]
  omega

/-! ## Text -/

/-- A unit of time: its sign and how many decimal places of it a nanosecond is. -/
structure Scale where
  sign : String
  places : Nat

def scales : List Scale := [⟨"s", 9⟩, ⟨"ms", 6⟩, ⟨"µs", 3⟩]

/-- The largest unit of which the span holds at least one. -/
def scale (d : Duration) : Scale :=
  (scales.find? fun u => Nat.pow 10 u.places ≤ d.nanos).getD ⟨"ns", 0⟩

def padded (width n : Nat) : List Char :=
  let digits := Nat.toDigits 10 n
  List.replicate (width - digits.length) '0' ++ digits

/-- The digits after the decimal point, without the zeros at their end. -/
def fraction (places n : Nat) : List Char :=
  ((padded places n).reverse.dropWhile (· == '0')).reverse

/-- The span in the largest unit that fits, with as many decimals as are needed to be exact. -/
def text (d : Duration) : String :=
  let u := d.scale
  let whole := d.nanos / Nat.pow 10 u.places
  let part := d.nanos % Nat.pow 10 u.places
  let decimals := if part = 0 then [] else '.' :: fraction u.places part
  String.ofList (Nat.toDigits 10 whole ++ decimals) ++ u.sign

end Duration

end ExpiringCache
