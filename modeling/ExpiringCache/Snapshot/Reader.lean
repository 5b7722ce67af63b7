import ExpiringCache.Entry
import ExpiringCache.Snapshot.Scalar

/-!
Reading a snapshot. An entry is an object with its four members in any order, others being passed over,
or a list of exactly the four. No bytes at all are no entries at all.
-/
namespace ExpiringCache.Snapshot
set_option autoImplicit false

open Text (ascii)
open Json (Fault Member skipSpace)

/-! ## Separators -/

/-- Goes to the next item of a list: none if the list ends here, the closing bracket being left. -/
def nextItem (first : Bool) (s : Bytes) : Except Fault (Option Bytes) :=
  match skipSpace s with
  | [] => .error .endInList
  | b :: r =>
    if b = ascii ']' then .ok none
    else if first then .ok (some (b :: r))
    else if b = ascii ',' then
      match skipSpace r with
      | [] => .error .endInValue
      | c :: r => if c = ascii ']' then .error .trailingComma else .ok (some (c :: r))
    else .error .expectedListSeparator

def endList (s : Bytes) : Except Fault Bytes :=
  match skipSpace s with
  | [] => .error .endInList
  | b :: r =>
    if b = ascii ']' then .ok r
    else if b = ascii ',' && (skipSpace r).head? = some (ascii ']') then .error .trailingComma
    else .error .trailingCharacters

/-- Goes to the next name of an object, past its opening quote: none if the object ends here, the
closing bracket being left. -/
def nextName (first : Bool) (s : Bytes) : Except Fault (Option Bytes) :=
  match skipSpace s with
  | [] => .error .endInObject
  | b :: r =>
    if b = ascii '}' then .ok none
    else if first then
      if b = ascii '"' then .ok (some r) else .error .keyNotString
    else if b = ascii ',' then
      match skipSpace r with
      | [] => .error .endInValue
      | c :: r =>
        if c = ascii '"' then .ok (some r)
        else if c = ascii '}' then .error .trailingComma
        else .error .keyNotString
    else .error .expectedObjectSeparator

/-! ## Entries -/

section
variable {K V : Type} [Scalar K] [Scalar V]

/-- The members of an entry that have been read so far. -/
structure Draft (K V : Type) where
  key : Option K := none
  value : Option V := none
  created : Option Instant := none
  accessed : Option Instant := none

def Draft.has (d : Draft K V) : Member → Bool
  | .key => d.key.isSome
  | .value => d.value.isSome
  | .created => d.created.isSome
  | .accessed => d.accessed.isSome

def memberOf (name : String) : Option Member :=
  [Member.key, .value, .created, .accessed].find? fun m => m.name = name

def Draft.read (d : Draft K V) (member : Member) (s : Bytes) : Except Fault (Draft K V × Bytes) :=
  match member with
  | .key => (Scalar.read s).map fun (k, r) => ({ d with key := some k }, r)
  | .value => (Scalar.read s).map fun (v, r) => ({ d with value := some v }, r)
  | .created => (Scalar.read s).map fun (t, r) => ({ d with created := some t }, r)
  | .accessed => (Scalar.read s).map fun (t, r) => ({ d with accessed := some t }, r)

/-- A member that was read, or what its absence stands for. -/
def present {α : Type} [Scalar α] (member : Member) (x : Option α) : Except Fault α :=
  match x with
  | some a => .ok a
  | none =>
    match (Scalar.absent : Option α) with
    | some a => .ok a
    | none => .error (.missing member)

def Draft.finish (d : Draft K V) : Except Fault (Entry K V) := do
  let key ← present .key d.key
  let value ← present .value d.value
  let created ← present .created d.created
  let accessed ← present .accessed d.accessed
  return ⟨key, value, created, accessed⟩

/-- Reads the value that belongs to a name, after the colon. -/
def readNamed (d : Draft K V) (name : String) (s : Bytes) : Except Fault (Draft K V × Bytes) :=
  match memberOf name with
  | some member =>
    if d.has member then .error (.duplicate member)
    else do
      let s ← Json.colon s
      d.read member s
  | none => do
    let s ← Json.colon s
    let s ← Json.skipValue s
    return (d, s)

/-- Reads the members of an object up to its closing bracket. A round uses up at least one byte. -/
def readMembers : Nat → Bool → Draft K V → Bytes → Except Fault (Draft K V × Bytes)
  | 0, _, _, _ => .error .endInObject
  | fuel + 1, first, d, s => do
    match ← nextName first s with
    | none => return (d, (skipSpace s).tail)
    | some s =>
      let (name, s) ← Json.stringBody s
      let (d, s) ← readNamed d name s
      readMembers fuel false d s

def readObject (s : Bytes) : Except Fault (Entry K V × Bytes) := do
  let (d, s) ← readMembers (s.length + 1) true {} s
  let e ← d.finish
  return (e, s)

/-- Reads the next of an entry's four members, of which `index` have been read. -/
def readNth {α : Type} [Scalar α] (index : Nat) (s : Bytes) : Except Fault (α × Bytes) := do
  match ← nextItem (index = 0) s with
  | none => .error (.wrongLength index)
  | some s => Scalar.read s

def readTuple (s : Bytes) : Except Fault (Entry K V × Bytes) := do
  let (key, s) ← readNth 0 s
  let (value, s) ← readNth 1 s
  let (created, s) ← readNth 2 s
  let (accessed, s) ← readNth 3 s
  let s ← endList s
  return (⟨key, value, created, accessed⟩, s)

def readEntry (s : Bytes) : Except Fault (Entry K V × Bytes) :=
  match skipSpace s with
  | [] => .error .endInValue
  | b :: r =>
    if b = ascii '{' then readObject r
    else if b = ascii '[' then readTuple r
    else .error (Json.misfit .entry (b :: r))

/-- Reads entries up to the closing bracket of their list. A round uses up at least one byte. -/
def readItems : Nat → Bool → Bytes → Except Fault (List (Entry K V) × Bytes)
  | 0, _, _ => .error .endInList
  | fuel + 1, first, s => do
    match ← nextItem first s with
    | none => return ([], (skipSpace s).tail)
    | some s =>
      let (e, s) ← readEntry s
      let (es, s) ← readItems fuel false s
      return (e :: es, s)

def readEntries (s : Bytes) : Except Fault (List (Entry K V) × Bytes) :=
  match skipSpace s with
  | [] => .error .endInValue
  | b :: r =>
    if b = ascii '[' then readItems (r.length + 1) true r
    else .error (Json.misfit .sequence (b :: r))

/-- Reads the bytes of a snapshot; nothing but blanks may follow the list. -/
def decode (s : Bytes) : Except Fault (Option (List (Entry K V))) :=
  if s.isEmpty then .ok none
  else do
    let (es, rest) ← readEntries s
    if (skipSpace rest).isEmpty then return some es else .error .trailingCharacters

end

end ExpiringCache.Snapshot
