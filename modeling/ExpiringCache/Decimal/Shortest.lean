/-!
The fewest decimal digits that stand for one binary number and no other, and a text made of them.

A positive binary number is `m * 2 ^ q`. The decimals that round to it form an interval around it,
with its ends if `m` is even. For one digit, two, and so on, only the two neighbours of the number
on that decimal grid can lie in the interval; the first grid with a hit gives the digits, and of two
hits the nearer.
-/
namespace ExpiringCache.Decimal
set_option autoImplicit false

/-- A positive binary number `m * 2 ^ q`; `lopsided` says that the next smaller number is half as far
away as the next larger one. -/
structure Binary where
  m : Nat
  q : Int
  lopsided : Bool

/-- The digits `digits`, the first of which is worth `10 ^ exponent`. -/
structure Digits where
  digits : List Char
  exponent : Int

namespace Binary

/-- The positive finite number with these 63 lower bits, if it is not zero. -/
def ofBits (bits : Nat) : Option Binary :=
  let exponent : Nat := bits / 0x10000000000000 % 0x800
  let mantissa : Nat := bits % 0x10000000000000
  if exponent = 0 then
    if mantissa = 0 then none else some ⟨mantissa, -1074, false⟩
  else some ⟨0x10000000000000 + mantissa, exponent - 1075, mantissa = 0 && exponent ≠ 1⟩

/-- The exponent of ten of the number's first digit. -/
def leading (b : Binary) : Int :=
  let num := b.m * Nat.pow 2 b.q.toNat
  let den := Nat.pow 2 (-b.q).toNat
  if den ≤ num then ((Nat.toDigits 10 (num / den)).length : Int) - 1
  else -((Nat.toDigits 10 ((den + num - 1) / num - 1)).length : Int)

/-- The multiple `c * 10 ^ p` that stands for the number, of the two beside it, if one does. All
numbers are compared in quarters of `2 ^ q`. -/
def nearOn (b : Binary) (p : Int) : Option Nat :=
  let a := Nat.pow 10 p.toNat * Nat.pow 2 (2 - b.q).toNat
  let d := Nat.pow 10 (-p).toNat * Nat.pow 2 (b.q - 2).toNat
  let low := (4 * b.m - if b.lopsided then 1 else 2) * d
  let high := (4 * b.m + 2) * d
  let value := 4 * b.m * d
  let inside (c : Nat) : Bool :=
    if b.m % 2 = 0 then low ≤ c * a && c * a ≤ high else low < c * a && c * a < high
  let below := value / a
  let above := below + 1
  if inside below then
    if inside above then
      let down := value - below * a
      let up := above * a - value
      if down < up then some below
      else if up < down then some above
      else if below % 2 = 0 then some below else some above
    else some below
  else if inside above then some above
  else none

/-- Tries `count` digits, then one more, at most `fuel` times. -/
def shortestFrom (b : Binary) : Nat → Nat → Digits
  | 0, _ => ⟨['0'], 0⟩
  | fuel + 1, count =>
    let p := b.leading - ((count : Int) - 1)
    match b.nearOn p with
    | some c =>
      let all := Nat.toDigits 10 c
      ⟨((all.reverse.dropWhile (· == '0')).reverse), p + (all.length : Int) - 1⟩
    | none => shortestFrom b fuel (count + 1)

def shortest (b : Binary) : Digits := b.shortestFrom 17 1

end Binary

/-! ## Text -/

/-- Which exponents of ten are written out with zeros, without an exponent. -/
def isPositional (exponent : Int) : Bool := -5 ≤ exponent && exponent ≤ 15

/-- An exponent: its sign, and no more digits than it needs. -/
def exponentText (e : Int) : List Char :=
  (if e < 0 then '-' else '+') :: Nat.toDigits 10 e.natAbs

/-- Digits with at least one after the point where that is written positionally, else one digit, the
other digits if there are more, and the exponent. -/
def Digits.text (d : Digits) : List Char :=
  if isPositional d.exponent then
    if d.exponent < 0 then
      ['0', '.'] ++ List.replicate ((-d.exponent).toNat - 1) '0' ++ d.digits
    else
      let n := d.exponent.toNat + 1
      let filled := d.digits ++ List.replicate (n + 1 - d.digits.length) '0'
      filled.take n ++ ['.'] ++ filled.drop n
  else
    let more := d.digits.drop 1
    d.digits.take 1 ++ (if more.isEmpty then [] else '.' :: more) ++ ['e'] ++ exponentText d.exponent

def text (x : Float) : String :=
  let bits := x.toBits.toNat
  let sign := if bits / 0x8000000000000000 = 1 then ['-'] else []
  let magnitude :=
    match Binary.ofBits (bits % 0x8000000000000000) with
    | some b => b.shortest.text
    | none => ['0', '.', '0']
  String.ofList (sign ++ magnitude)

end ExpiringCache.Decimal
