import ExpiringCache.Text.Quoted

/-!
What can be wrong with the text of a snapshot, and how each fault is worded.
-/
namespace ExpiringCache.Json
set_option autoImplicit false

/-- A value that stands where another kind of value belongs. -/
inductive Found where
  | null
  | boolean (value : Bool)
  | natural (value : Nat)
  | negative (magnitude : Nat)
  | fractional (text : String)
  | string (value : String)
  | sequence
  | map
deriving DecidableEq

def Found.message : Found → String
  | .null => "null"
  | .boolean b => s!"boolean `{b}`"
  | .natural n => s!"integer `{n}`"
  | .negative n => s!"integer `-{n}`"
  | .fractional t => s!"floating point `{t}`"
  | .string s => "string " ++ Text.quoted s
  | .sequence => "sequence"
  | .map => "map"

inductive Wanted where
  | sequence
  | entry
  | string
  | int64
  | uint32
deriving DecidableEq

def Wanted.message : Wanted → String
  | .sequence => "a sequence"
  | .entry => "struct CacheEntry"
  | .string => "a string"
  | .int64 => "i64"
  | .uint32 => "u32"

/-- The parts of an entry, in the order in which they are written. -/
inductive Member where
  | key
  | value
  | created
  | accessed
deriving DecidableEq

def Member.name : Member → String
  | .key => "key"
  | .value => "value"
  | .created => "creation_date"
  | .accessed => "last_access_date"

inductive Fault where
  | endInList
  | endInObject
  | endInString
  | endInValue
  | expectedColon
  | expectedListSeparator
  | expectedObjectSeparator
  | expectedIdent
  | expectedValue
  | invalidEscape
  | invalidNumber
  | numberOutOfRange
  | invalidCodePoint
  | controlCharacter
  | keyNotString
  | loneSurrogate
  | trailingComma
  | trailingCharacters
  | unfinishedSurrogate
  | wrongType (found : Found) (wanted : Wanted)
  | wrongValue (found : Found) (wanted : Wanted)
  | wrongLength (length : Nat)
  | missing (member : Member)
  | duplicate (member : Member)
deriving DecidableEq

def Fault.message : Fault → String
  | .endInList => "EOF while parsing a list"
  | .endInObject => "EOF while parsing an object"
  | .endInString => "EOF while parsing a string"
  | .endInValue => "EOF while parsing a value"
  | .expectedColon => "expected `:`"
  | .expectedListSeparator => "expected `,` or `]`"
  | .expectedObjectSeparator => "expected `,` or `\x7d`"
  | .expectedIdent => "expected ident"
  | .expectedValue => "expected value"
  | .invalidEscape => "invalid escape"
  | .invalidNumber => "invalid number"
  | .numberOutOfRange => "number out of range"
  | .invalidCodePoint => "invalid unicode code point"
  | .controlCharacter => "control character (\\u0000-\\u001F) found while parsing a string"
  | .keyNotString => "key must be a string"
  | .loneSurrogate => "lone leading surrogate in hex escape"
  | .trailingComma => "trailing comma"
  | .trailingCharacters => "trailing characters"
  | .unfinishedSurrogate => "unexpected end of hex escape"
  | .wrongType found wanted => s!"invalid type: {found.message}, expected {wanted.message}"
  | .wrongValue found wanted => s!"invalid value: {found.message}, expected {wanted.message}"
  | .wrongLength n => s!"invalid length {n}, expected struct CacheEntry with 4 elements"
  | .missing m => s!"missing field `{m.name}`"
  | .duplicate m => s!"duplicate field `{m.name}`"

end ExpiringCache.Json
