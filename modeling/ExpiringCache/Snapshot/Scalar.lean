import ExpiringCache.Instant
import ExpiringCache.Json.Token

/-!
The kinds of keys and values that a snapshot can hold, and the text of each: strings, whole numbers of
64 signed or 32 unsigned bits, and strings that may be absent.
-/
namespace ExpiringCache
set_option autoImplicit false

open Text (ascii)
open Json (Fault Found Wanted Number)

/-- A type whose values are written as single tokens. -/
class Scalar (α : Type) where
  write : α → Bytes
  read : Bytes → Except Fault (α × Bytes)
  /-- What an object that does not mention the member stands for. -/
  absent : Option α

namespace Scalar

/-! ## Strings -/

def hexByte (n : Nat) : List Char :=
  [Nat.digitChar (n / 16), Nat.digitChar (n % 16)]

def escapeChar (c : Char) : List Char :=
  if c = '"' then ['\\', '"']
  else if c = '\\' then ['\\', '\\']
  else if c = '\x08' then ['\\', 'b']
  else if c = '\x0c' then ['\\', 'f']
  else if c = '\n' then ['\\', 'n']
  else if c = '\r' then ['\\', 'r']
  else if c = '\t' then ['\\', 't']
  else if c.toNat < 0x20 then ['\\', 'u', '0', '0'] ++ hexByte c.toNat
  else [c]

def writeString (s : String) : Bytes :=
  Text.encode ('"' :: s.toList.flatMap escapeChar ++ ['"'])

instance : Scalar String where
  write := writeString
  read := Json.string
  absent := none

/-! ## Whole numbers -/

def writeNat (n : Nat) : Bytes := Text.encode (Nat.toDigits 10 n)

def writeInt (n : Int) : Bytes :=
  if n < 0 then ascii '-' :: writeNat n.natAbs else writeNat n.natAbs

/-- Reads a number after blanks and hands its worth to `accept`. -/
def readNumber {α : Type} (wanted : Wanted) (accept : Number → Option α) (s : Bytes) :
    Except Fault (α × Bytes) :=
  let check : Except Fault (Number × Bytes) → Except Fault (α × Bytes)
    | .error f => .error f
    | .ok (n, rest) =>
      match accept n, n with
      | some a, _ => .ok (a, rest)
      | none, .fractional t => .error (.wrongType (.fractional t) wanted)
      | none, n => .error (.wrongValue n.found wanted)
  match Json.skipSpace s with
  | [] => .error .endInValue
  | b :: r =>
    if b = ascii '-' then check (Json.number true r)
    else if Json.isDigit b then check (Json.number false (b :: r))
    else .error (Json.misfit wanted (b :: r))

def toInt64? : Number → Option Int64
  | .natural n => if n < 0x8000000000000000 then some (Int64.ofInt n) else none
  | .negative n => if n ≤ 0x8000000000000000 then some (Int64.ofInt (-n)) else none
  | .fractional _ => none

def toUInt32? : Number → Option UInt32
  | .natural n => if n < 0x100000000 then some (UInt32.ofNat n) else none
  | .negative _ => none
  | .fractional _ => none

instance : Scalar Int64 where
  write n := writeInt n.toInt
  read := readNumber .int64 toInt64?
  absent := none

instance : Scalar UInt32 where
  write n := writeNat n.toNat
  read := readNumber .uint32 toUInt32?
  absent := none

/-! ## Strings that may be absent -/

def readOption (s : Bytes) : Except Fault (Option String × Bytes) :=
  match Json.skipSpace s with
  | [] => .error .endInValue
  | b :: r =>
    if b = ascii 'n' then
      match Json.literalOf "ull" r with
      | .ok rest => .ok (none, rest)
      | .error f => .error f
    else
      match Json.string (b :: r) with
      | .ok (t, rest) => .ok (some t, rest)
      | .error f => .error f

instance : Scalar (Option String) where
  write
    | none => Text.bytesOf "null"
    | some s => writeString s
  read := readOption
  absent := some none

end Scalar

end ExpiringCache
