/-!
Characters as bytes: the UTF-8 form of a text, and reading it back. A text that is not well formed is
refused at the first byte that cannot belong to a character, with how many bytes are at fault.
-/
namespace ExpiringCache
set_option autoImplicit false

abbrev Bytes := List UInt8

namespace Text

def encodeChar (c : Char) : Bytes :=
  let n := c.toNat
  if n < 0x80 then [UInt8.ofNat n]
  else if n < 0x800 then [UInt8.ofNat (0xc0 + n / 0x40), UInt8.ofNat (0x80 + n % 0x40)]
  else if n < 0x10000 then
    [UInt8.ofNat (0xe0 + n / 0x1000), UInt8.ofNat (0x80 + n / 0x40 % 0x40),
      UInt8.ofNat (0x80 + n % 0x40)]
  else
    [UInt8.ofNat (0xf0 + n / 0x40000), UInt8.ofNat (0x80 + n / 0x1000 % 0x40),
      UInt8.ofNat (0x80 + n / 0x40 % 0x40), UInt8.ofNat (0x80 + n % 0x40)]

def encode (cs : List Char) : Bytes := cs.flatMap encodeChar

/-- Where bytes stop being text: after how many bytes, and how many bytes make no character; none
when the bytes end inside one. -/
structure Utf8Fault where
  index : Nat
  length : Option Nat
deriving DecidableEq

def Utf8Fault.message (f : Utf8Fault) : String :=
  match f.length with
  | some n => s!"invalid utf-8 sequence of {n} bytes from index {f.index}"
  | none => s!"incomplete utf-8 byte sequence from index {f.index}"

def isContinuation (b : UInt8) : Bool := 0x80 ≤ b && b ≤ 0xbf

/-- The bytes that may follow the first byte of a character of three or four bytes: they leave out
longer forms than needed, surrogates, and numbers past the last character. -/
def secondRange (first : UInt8) : UInt8 × UInt8 :=
  if first = 0xe0 then (0xa0, 0xbf)
  else if first = 0xed then (0x80, 0x9f)
  else if first = 0xf0 then (0x90, 0xbf)
  else if first = 0xf4 then (0x80, 0x8f)
  else (0x80, 0xbf)

def isSecond (first b : UInt8) : Bool :=
  (secondRange first).1 ≤ b && b ≤ (secondRange first).2

def payload (b : UInt8) : Nat := b.toNat - 0x80

/-- Reads a text; `index` bytes came before. -/
def decodeFrom (index : Nat) : Bytes → Except Utf8Fault (List Char)
  | [] => .ok []
  | b :: s =>
    if b < 0x80 then
      match decodeFrom (index + 1) s with
      | .ok cs => .ok (Char.ofNat b.toNat :: cs)
      | .error f => .error f
    else if 0xc2 ≤ b && b ≤ 0xdf then
      match s with
      | [] => .error ⟨index, none⟩
      | b₁ :: s =>
        if isContinuation b₁ then
          match decodeFrom (index + 2) s with
          | .ok cs => .ok (Char.ofNat ((b.toNat - 0xc0) * 0x40 + payload b₁) :: cs)
          | .error f => .error f
        else .error ⟨index, some 1⟩
    else if 0xe0 ≤ b && b ≤ 0xef then
      match s with
      | [] => .error ⟨index, none⟩
      | b₁ :: s =>
        if isSecond b b₁ then
          match s with
          | [] => .error ⟨index, none⟩
          | b₂ :: s =>
            if isContinuation b₂ then
              match decodeFrom (index + 3) s with
              | .ok cs =>
                .ok (Char.ofNat ((b.toNat - 0xe0) * 0x1000 + payload b₁ * 0x40 + payload b₂) :: cs)
              | .error f => .error f
            else .error ⟨index, some 2⟩
        else .error ⟨index, some 1⟩
    else if 0xf0 ≤ b && b ≤ 0xf4 then
      match s with
      | [] => .error ⟨index, none⟩
      | b₁ :: s =>
        if isSecond b b₁ then
          match s with
          | [] => .error ⟨index, none⟩
          | b₂ :: s =>
            if isContinuation b₂ then
              match s with
              | [] => .error ⟨index, none⟩
              | b₃ :: s =>
                if isContinuation b₃ then
                  match decodeFrom (index + 4) s with
                  | .ok cs =>
                    .ok (Char.ofNat ((b.toNat - 0xf0) * 0x40000 + payload b₁ * 0x1000
                      + payload b₂ * 0x40 + payload b₃) :: cs)
                  | .error f => .error f
                else .error ⟨index, some 3⟩
            else .error ⟨index, some 2⟩
        else .error ⟨index, some 1⟩
    else .error ⟨index, some 1⟩

def decode (s : Bytes) : Except Utf8Fault (List Char) := decodeFrom 0 s

def bytesOf (s : String) : Bytes := encode s.toList

def ascii (c : Char) : UInt8 := c.toUInt8

end Text

end ExpiringCache
