import ExpiringCache.Decimal.Shortest
import ExpiringCache.Json.Fault
import ExpiringCache.Text.Utf8

/-!
Numbers in a snapshot's text: their written form, and what it is worth. A number without fraction and
exponent is a whole number as far as 64 bits reach; any other is the nearest binary fraction.
-/
namespace ExpiringCache.Json
set_option autoImplicit false

open Text (ascii)

/-! ## The written form -/

def isDigit (b : UInt8) : Bool := ascii '0' ≤ b && b ≤ ascii '9'

def digitValue (b : UInt8) : Nat := b.toNat - 48

def digits (s : Bytes) : List Nat × Bytes :=
  ((s.takeWhile isDigit).map digitValue, s.dropWhile isDigit)

structure Exponent where
  negative : Bool
  digits : List Nat

structure Numeral where
  whole : List Nat
  fraction : List Nat
  exponent : Option Exponent

/-- The fault at `s` where a digit is wanted: `atEnd` if nothing is left. -/
def digitFault (atEnd : Fault) (s : Bytes) : Fault :=
  if s.isEmpty then atEnd else .invalidNumber

/-- The digits before the point: a zero alone, or digits that do not begin with one. -/
def wholePart (atEnd : Fault) (s : Bytes) : Except Fault (List Nat × Bytes) :=
  match s with
  | [] => .error atEnd
  | b :: r =>
    if b = ascii '0' then
      if r.head?.any isDigit then .error .invalidNumber else .ok ([0], r)
    else if isDigit b then .ok (digits s)
    else .error .invalidNumber

/-- The digits after a point, if there is one; then there is at least one digit. -/
def fractionPart (atEnd : Fault) (s : Bytes) : Except Fault (List Nat × Bytes) :=
  match s with
  | [] => .ok ([], [])
  | b :: r =>
    if b = ascii '.' then
      let (ds, rest) := digits r
      if ds.isEmpty then .error (digitFault atEnd rest) else .ok (ds, rest)
    else .ok ([], s)

def exponentSign (s : Bytes) : Bool × Bytes :=
  match s with
  | [] => (false, [])
  | b :: r =>
    if b = ascii '-' then (true, r)
    else if b = ascii '+' then (false, r)
    else (false, s)

/-- The exponent, if there is one; then it has at least one digit. -/
def exponentPart (atEnd : Fault) (s : Bytes) : Except Fault (Option Exponent × Bytes) :=
  match s with
  | [] => .ok (none, [])
  | b :: r =>
    if b = ascii 'e' || b = ascii 'E' then
      let (negative, r) := exponentSign r
      let (ds, rest) := digits r
      if ds.isEmpty then .error (digitFault atEnd rest) else .ok (some ⟨negative, ds⟩, rest)
    else .ok (none, s)

/-- A number, its sign already read. `atEnd` is the fault if the text ends where a digit is wanted. -/
def numeral (atEnd : Fault) (s : Bytes) : Except Fault (Numeral × Bytes) :=
  match wholePart atEnd s with
  | .error f => .error f
  | .ok (whole, s) =>
    match fractionPart atEnd s with
    | .error f => .error f
    | .ok (fraction, s) =>
      match exponentPart atEnd s with
      | .error f => .error f
      | .ok (exponent, s) => .ok (⟨whole, fraction, exponent⟩, s)

/-! ## Its worth -/

/-- What a number is worth; of a fraction, the shortest text that stands for it. -/
inductive Number where
  | natural (n : Nat)
  | negative (magnitude : Nat)
  | fractional (text : String)
deriving DecidableEq

/-- Takes on digits as long as 64 bits hold the number, and returns those left over. -/
def accumulate (value : Nat) : List Nat → Nat × List Nat
  | [] => (value, [])
  | d :: ds =>
    if value * 10 + d < 0x10000000000000000 then accumulate (value * 10 + d) ds else (value, d :: ds)

def tenTo (n : Nat) : Float := Float.ofScientific 1 false n

def divideByTens (x : Float) (n : Nat) : Float :=
  if h : n ≤ 308 then x / tenTo n
  else if x == 0.0 then x
  else divideByTens (x / tenTo 308) (n - 308)
termination_by n
decreasing_by omega

def scaled (significand : Nat) (exponent : Int) : Except Fault Float :=
  let x := significand.toUInt64.toFloat
  if exponent < 0 then .ok (divideByTens x exponent.natAbs)
  else if exponent ≤ 308 then
    let y := x * tenTo exponent.toNat
    if y.isInf then .error .numberOutOfRange else .ok y
  else if x == 0.0 then .ok x
  else .error .numberOutOfRange

def decimalValue (ds : List Nat) : Nat := ds.foldl (fun n d => n * 10 + d) 0

/-- The magnitude of a number with a fraction, an exponent, or too many digits. A digit of the whole
part that no longer fits counts as a zero; one of the fraction is dropped. -/
def Numeral.magnitude (n : Numeral) : Except Fault Float :=
  let (whole, unread) := accumulate 0 n.whole
  let (significand, dropped) := accumulate whole n.fraction
  let shift : Int := (unread.length : Int) - ((n.fraction.length : Int) - dropped.length)
  match n.exponent with
  | none => scaled significand shift
  | some e =>
    let size := decimalValue e.digits
    if size < 0x80000000 then scaled significand (if e.negative then shift - size else shift + size)
    else if significand = 0 || e.negative then .ok 0.0
    else .error .numberOutOfRange

/-- What the number is worth under its sign. Minus zero and what lies below 64 signed bits are
fractions. -/
def Numeral.evaluate (negative : Bool) (n : Numeral) : Except Fault Number :=
  let signed (x : Float) : Number := .fractional (Decimal.text (if negative then -x else x))
  let (whole, unread) := accumulate 0 n.whole
  if unread.isEmpty && n.fraction.isEmpty && n.exponent.isNone then
    if !negative then .ok (.natural whole)
    else if 0 < whole && whole ≤ 0x8000000000000000 then .ok (.negative whole)
    else .ok (signed whole.toUInt64.toFloat)
  else
    match n.magnitude with
    | .ok x => .ok (signed x)
    | .error f => .error f

def number (negative : Bool) (s : Bytes) : Except Fault (Number × Bytes) :=
  match numeral .endInValue s with
  | .error f => .error f
  | .ok (n, rest) =>
    match n.evaluate negative with
    | .error f => .error f
    | .ok value => .ok (value, rest)

def Number.found : Number → Found
  | .natural n => .natural n
  | .negative n => .negative n
  | .fractional t => .fractional t

end ExpiringCache.Json
