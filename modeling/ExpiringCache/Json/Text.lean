import ExpiringCache.Json.Fault
import ExpiringCache.Text.Utf8

/-!
Strings in a snapshot's text, read byte by byte after the opening quote: escapes are undone, a pair of
surrogate escapes makes one character, and what comes out has to be UTF-8.
-/
namespace ExpiringCache.Json
set_option autoImplicit false

open Text (ascii)

inductive Scan where
  | plain
  | escape
  /-- inside a numeric escape, whose digits so far are `digits`; `lead` is the first surrogate of a
  pair, if the escape is the second -/
  | numeric (lead : Option Nat) (digits : Bytes)
  | paired (lead : Nat)
  | pairedEscape (lead : Nat)

def letterEscape (b : UInt8) : Option UInt8 :=
  if b = ascii '"' || b = ascii '\\' || b = ascii '/' then some b
  else if b = ascii 'b' then some 0x08
  else if b = ascii 'f' then some 0x0c
  else if b = ascii 'n' then some 0x0a
  else if b = ascii 'r' then some 0x0d
  else if b = ascii 't' then some 0x09
  else none

def hexDigit (b : UInt8) : Option Nat :=
  if ascii '0' ≤ b && b ≤ ascii '9' then some (b.toNat - 48)
  else if ascii 'a' ≤ b && b ≤ ascii 'f' then some (b.toNat - 87)
  else if ascii 'A' ≤ b && b ≤ ascii 'F' then some (b.toNat - 55)
  else none

def hexValueFrom (value : Nat) : Bytes → Option Nat
  | [] => some value
  | b :: s =>
    match hexDigit b with
    | some d => hexValueFrom (value * 16 + d) s
    | none => none

def hexValue (s : Bytes) : Option Nat := hexValueFrom 0 s

def isLeading (n : Nat) : Bool := 0xd800 ≤ n && n ≤ 0xdbff

def isTrailing (n : Nat) : Bool := 0xdc00 ≤ n && n ≤ 0xdfff

/-- What a numeric escape worth `n` leads to: bytes to add and where the reader stands then. -/
def afterNumeric (lead : Option Nat) (n : Nat) : Except Fault (Bytes × Scan) :=
  match lead with
  | none =>
    if isTrailing n then .error .loneSurrogate
    else if isLeading n then .ok ([], .paired n)
    else .ok (Text.encodeChar (Char.ofNat n), .plain)
  | some first =>
    if isTrailing n then
      .ok (Text.encodeChar (Char.ofNat (0x10000 + (first - 0xd800) * 0x400 + (n - 0xdc00))), .plain)
    else .error .loneSurrogate

def push (added : Bytes) : Except Fault (Bytes × Bytes) → Except Fault (Bytes × Bytes)
  | .ok (text, rest) => .ok (added ++ text, rest)
  | .error f => .error f

/-- The bytes of a string up to its closing quote, and what follows the quote. Unless `strict`, a
numeric escape only has to have four digits. -/
def scan (strict : Bool) : Scan → Bytes → Except Fault (Bytes × Bytes)
  | _, [] => .error .endInString
  | .plain, b :: s =>
    if b = ascii '"' then .ok ([], s)
    else if b = ascii '\\' then scan strict .escape s
    else if b < 0x20 then .error .controlCharacter
    else push [b] (scan strict .plain s)
  | .escape, b :: s =>
    if b = ascii 'u' then scan strict (.numeric none []) s
    else
      match letterEscape b with
      | some c => push [c] (scan strict .plain s)
      | none => .error .invalidEscape
  | .numeric lead ds, b :: s =>
    if ds.length < 3 then scan strict (.numeric lead (ds ++ [b])) s
    else
      match hexValue (ds ++ [b]) with
      | none => .error .invalidEscape
      | some n =>
        if strict then
          match afterNumeric lead n with
          | .ok (added, next) => push added (scan strict next s)
          | .error f => .error f
        else scan strict .plain s
  | .paired lead, b :: s =>
    if b = ascii '\\' then scan strict (.pairedEscape lead) s else .error .unfinishedSurrogate
  | .pairedEscape lead, b :: s =>
    if b = ascii 'u' then scan strict (.numeric (some lead) []) s else .error .unfinishedSurrogate

def stringBody (s : Bytes) : Except Fault (String × Bytes) :=
  match scan true .plain s with
  | .error f => .error f
  | .ok (text, rest) =>
    match Text.decode text with
    | .ok cs => .ok (String.ofList cs, rest)
    | .error _ => .error .invalidCodePoint

def skipString (s : Bytes) : Except Fault Bytes :=
  match scan false .plain s with
  | .error f => .error f
  | .ok (_, rest) => .ok rest

end ExpiringCache.Json
