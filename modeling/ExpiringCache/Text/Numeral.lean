/-!
Unsigned decimal numerals below 2^64: an optional plus sign and at least one digit.
-/
namespace ExpiringCache.Text
set_option autoImplicit false

inductive NumeralFault where
  | invalidDigit
  | tooLarge
deriving DecidableEq

def NumeralFault.message : NumeralFault → String
  | .invalidDigit => "invalid digit found in string"
  | .tooLarge => "number too large to fit in target type"

/-- One more than the largest number that a numeral may stand for. -/
def numeralBound : Nat := 0x10000000000000000

/-- Reads the remaining digits after those worth `value`. The first character that does no good
decides what is wrong: no digit, or one with which the number leaves the range. -/
def digitsFrom (value : Nat) : List Char → Except NumeralFault Nat
  | [] => .ok value
  | c :: cs =>
    if c.isDigit then
      let next := value * 10 + (c.toNat - '0'.toNat)
      if next < numeralBound then digitsFrom next cs else .error .tooLarge
    else .error .invalidDigit

def numeral : List Char → Except NumeralFault Nat
  | [] => .error .invalidDigit
  | c :: cs =>
    if c = '+' then
      if cs.isEmpty then .error .invalidDigit else digitsFrom 0 cs
    else digitsFrom 0 (c :: cs)

end ExpiringCache.Text
