import ExpiringCache.Json.Number
import ExpiringCache.Json.Text

/-!
The reader's small steps: blanks, literals, separators, and passing over a value of any kind, however
deeply nested.
-/
namespace ExpiringCache.Json
set_option autoImplicit false

open Text (ascii)

/-- Space, tab, line feed and carriage return; nothing else separates tokens. -/
def isSpace (b : UInt8) : Bool :=
  b = ascii ' ' || b = ascii '\t' || b = ascii '\n' || b = ascii '\r'

def skipSpace (s : Bytes) : Bytes := s.dropWhile isSpace

def literal (letters : Bytes) (s : Bytes) : Except Fault Bytes :=
  match letters, s with
  | [], s => .ok s
  | _ :: _, [] => .error .endInValue
  | c :: cs, b :: s => if b = c then literal cs s else .error .expectedIdent

def literalOf (letters : String) (s : Bytes) : Except Fault Bytes :=
  literal (Text.bytesOf letters) s

/-- The fault of meeting a value of the wrong kind at `s`. A fault of that value itself comes first;
lists and objects are not looked into. -/
def misfit (wanted : Wanted) (s : Bytes) : Fault :=
  match s with
  | [] => .expectedValue
  | b :: r =>
    if b = ascii 'n' then
      match literalOf "ull" r with
      | .ok _ => .wrongType .null wanted
      | .error f => f
    else if b = ascii 't' then
      match literalOf "rue" r with
      | .ok _ => .wrongType (.boolean true) wanted
      | .error f => f
    else if b = ascii 'f' then
      match literalOf "alse" r with
      | .ok _ => .wrongType (.boolean false) wanted
      | .error f => f
    else if b = ascii '-' then
      match number true r with
      | .ok (n, _) => .wrongType n.found wanted
      | .error f => f
    else if isDigit b then
      match number false s with
      | .ok (n, _) => .wrongType n.found wanted
      | .error f => f
    else if b = ascii '"' then
      match stringBody r with
      | .ok (t, _) => .wrongType (.string t) wanted
      | .error f => f
    else if b = ascii '[' then .wrongType .sequence wanted
    else if b = ascii '{' then .wrongType .map wanted
    else .expectedValue

def string (s : Bytes) : Except Fault (String × Bytes) :=
  match skipSpace s with
  | [] => .error .endInValue
  | b :: r => if b = ascii '"' then stringBody r else .error (misfit .string (b :: r))

def colon (s : Bytes) : Except Fault Bytes :=
  match skipSpace s with
  | [] => .error .endInObject
  | b :: r => if b = ascii ':' then .ok r else .error .expectedColon

/-! ## Passing over a value -/

inductive Bracket where
  | list
  | object
deriving DecidableEq

def Bracket.closing : Bracket → UInt8
  | .list => ascii ']'
  | .object => ascii '}'

def Bracket.endFault : Bracket → Fault
  | .list => .endInList
  | .object => .endInObject

def Bracket.separatorFault : Bracket → Fault
  | .list => .expectedListSeparator
  | .object => .expectedObjectSeparator

/-- Passes over a value that is neither a list nor an object and begins with `b`. -/
def skipScalar (b : UInt8) (r : Bytes) : Except Fault Bytes :=
  if b = ascii 'n' then literalOf "ull" r
  else if b = ascii 't' then literalOf "rue" r
  else if b = ascii 'f' then literalOf "alse" r
  else if b = ascii '"' then skipString r
  else if b = ascii '-' then (numeral .invalidNumber r).map (·.2)
  else if isDigit b then (numeral .invalidNumber (b :: r)).map (·.2)
  else .error .expectedValue

def skipName (s : Bytes) : Except Fault Bytes :=
  match skipSpace s with
  | [] => .error .endInObject
  | b :: r =>
    if b = ascii '"' then
      match skipString r with
      | .ok r => colon r
      | .error f => .error f
    else .error .keyNotString

/-- What comes before the next value in a bracket: a name in an object, nothing in a list. -/
def beforeValue (bracket : Bracket) (s : Bytes) : Except Fault Bytes :=
  match bracket with
  | .list => .ok s
  | .object => skipName s

/-- What the skipper does next: pass over a value, or go on after one (or after an opening bracket,
where no comma may stand). -/
inductive Skip where
  | value
  | after (comma : Bool)

/-- Passes over what is left of a value inside the open `brackets`, the innermost first. Two
rounds use up at least one byte, so twice the number of bytes is enough fuel. -/
def skipFrom : Nat → List Bracket → Skip → Bytes → Except Fault Bytes
  | 0, _, _, _ => .error .endInValue
  | fuel + 1, brackets, .value, s =>
    match skipSpace s with
    | [] => .error .endInValue
    | b :: r =>
      if b = ascii '[' then skipFrom fuel (.list :: brackets) (.after false) r
      else if b = ascii '{' then skipFrom fuel (.object :: brackets) (.after false) r
      else
        match skipScalar b r with
        | .error f => .error f
        | .ok r => if brackets.isEmpty then .ok r else skipFrom fuel brackets (.after true) r
  | _ + 1, [], .after _, s => .ok s
  | fuel + 1, bracket :: brackets, .after comma, s =>
    match skipSpace s with
    | [] => .error bracket.endFault
    | b :: r =>
      if b = bracket.closing then
        if brackets.isEmpty then .ok r else skipFrom fuel brackets (.after true) r
      else if comma && b != ascii ',' then .error bracket.separatorFault
      else
        match beforeValue bracket (if comma then r else b :: r) with
        | .error f => .error f
        | .ok s => skipFrom fuel (bracket :: brackets) .value s

def skipValue (s : Bytes) : Except Fault Bytes := skipFrom (2 * s.length + 1) [] .value s

end ExpiringCache.Json
