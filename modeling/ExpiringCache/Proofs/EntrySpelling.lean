import ExpiringCache.Proofs.SnapshotText
import ExpiringCache.Proofs.ValueSyntax

/-!
The ways to spell a snapshot. An entry is an object that has each of its four members once, in any order and among
any other fields, or a list of just the four. Blanks may stand between any two tokens, and characters may be escaped
at will, in the names of the fields too. Main statement: what is written is one of these spellings, in either layout.
-/
namespace ExpiringCache
set_option autoImplicit false

open Text (ascii)
open Json (Blank Bracket Bracketed Ends Formed Member Separator StringText skipValue)

/-! ## Keys and values -/

/-- The ways to spell a key or a value. -/
class Spelling (α : Type) where
  Spells : α → Bytes → Prop

open Spelling (Spells)

/-- A kind of key or value that is read from all its spellings. Nothing is read as one that could not be passed over,
and then both end at the same place. -/
class LawfulSpelling (α : Type) [Scalar α] [Spelling α] : Prop where
  formed : ∀ {a : α} {s : Bytes}, Spells a s → Formed .value s
  read_eq : ∀ {a : α} {blank s rest : Bytes}, Spells a s → Blank blank → Ends rest →
    Scalar.read (blank ++ (s ++ rest)) = .ok (a, rest)
  skipValue_eq : ∀ {a : α} {s r : Bytes}, Scalar.read s = .ok (a, r) → skipValue s = .ok r
  absent_eq : (Scalar.absent : Option α) = none
  spells_write : ∀ a : α, Spells a (Scalar.write a)

namespace Scalar

instance : Spelling String where
  Spells := StringText

theorem string_eq {t : String} {blank s : Bytes} (h : StringText t s) (hblank : Blank blank) (rest : Bytes) :
    Json.string (blank ++ (s ++ rest)) = .ok (t, rest) := by
  obtain ⟨body, rfl, hread⟩ := h.stringBody_eq
  rw [List.cons_append, Json.string, hblank.skipSpace_eq (by decide)]
  exact hread rest

instance : LawfulSpelling String where
  formed h := .string h.anyString
  read_eq h hblank _ := string_eq h hblank _
  skipValue_eq := Json.skipValue_of_string
  absent_eq := rfl
  spells_write := stringText_writeString

/-- A whole number is spelled in one way. With a point or an exponent it would be a fraction, and so would minus
zero. -/
instance : Spelling Int64 where
  Spells n s := s = Scalar.write n

instance : Spelling UInt32 where
  Spells n s := s = Scalar.write n

theorem formed_whole {sign whole : Bytes} (hsign : sign ∈ [[], [ascii '-']]) (hwhole : Json.WholeText whole) :
    Formed .value (sign ++ whole) := by
  have hnumber := Json.NumberText.mk hsign hwhole .absent .absent
  rw [List.append_nil, List.append_nil] at hnumber
  exact .number hnumber

theorem formed_writeNat (n : Nat) : Formed .value (writeNat n) :=
  formed_whole (List.mem_cons_self ..) (wholeText_writeNat n)

theorem formed_writeInt (n : Int) : Formed .value (writeInt n) := by
  unfold writeInt
  split
  · exact formed_whole (List.mem_cons_of_mem _ (List.mem_cons_self ..)) (wholeText_writeNat n.natAbs)
  · exact formed_writeNat n.natAbs

theorem skipValue_of_readNumber {α : Type} {wanted : Json.Wanted} {accept : Json.Number → Option α} {s : Bytes}
    {a : α} {r : Bytes} (h : readNumber wanted accept s = .ok (a, r)) : skipValue s = .ok r := by
  unfold readNumber at h
  extract_lets check at h
  have hcheck : ∀ {negative : Bool} {t : Bytes}, check (Json.number negative t) = .ok (a, r) →
      (Json.numeral .invalidNumber t).map (·.2) = .ok r := by
    intro negative t hok
    cases hnumber : Json.number negative t with
    | error f =>
      rw [hnumber] at hok
      cases hok
    | ok read =>
      obtain ⟨n, rest⟩ := read
      rw [hnumber] at hok
      simp only [check] at hok
      split at hok
      · cases hok
        exact Json.numeral_of_number hnumber
      · cases hok
      · cases hok
  split at h
  · cases h
  · rename_i b t hs
    split_ifs at h with hminus hdigit
    · rw [hminus] at hs
      exact Json.skipValue_of_skipScalar hs (by decide) (by decide) (hcheck h)
    · refine Json.skipValue_of_skipScalar hs (Json.digit_ne hdigit rfl) (Json.digit_ne hdigit rfl) ?_
      rw [Json.skipScalar_digit hdigit]
      exact hcheck h

instance : LawfulSpelling Int64 where
  formed h := h ▸ formed_writeInt _
  read_eq h hblank hends := h ▸ Snapshot.read_blank hblank _ hends
  skipValue_eq := skipValue_of_readNumber
  absent_eq := rfl
  spells_write _ := rfl

instance : LawfulSpelling UInt32 where
  formed h := h ▸ formed_writeNat _
  read_eq h hblank hends := h ▸ Snapshot.read_blank hblank _ hends
  skipValue_eq := skipValue_of_readNumber
  absent_eq := rfl
  spells_write _ := rfl

end Scalar

namespace Snapshot

/-! ## Spellings -/

/-- A field of an object: what it is called and the text of its value. -/
structure Field where
  name : String
  value : Bytes

def Field.Spelled (f : Field) (s : Bytes) : Prop :=
  ∃ name before after, StringText f.name name ∧ Blank before ∧ Blank after ∧
    s = name ++ (before ++ ascii ':' :: (after ++ f.value))

/-- How many fields of an object are called like a member. -/
def mentions (fields : List Field) (member : Member) : Nat := fields.countP fun f => f.name = member.name

section
variable {K V : Type} [Spelling K] [Spelling V]

def MemberText (e : Entry K V) : Member → Bytes → Prop
  | .key => Spells e.key
  | .value => Spells e.value
  | .created => Spells e.created
  | .accessed => Spells e.accessed

/-- A field that an object for `e` may have. No one asks what belongs to a name that is no member's. -/
inductive FieldOf (e : Entry K V) : Field → Prop
  | member {member : Member} {value : Bytes} : MemberText e member value → FieldOf e ⟨member.name, value⟩
  | other {name : String} {value : Bytes} : (∀ member : Member, name ≠ member.name) → Formed .value value →
      FieldOf e ⟨name, value⟩

inductive EntryText (e : Entry K V) : Bytes → Prop
  | object {fields : List Field} {s : Bytes} : (∀ f ∈ fields, FieldOf e f) →
      (∀ member, mentions fields member = 1) → Bracketed .object Field.Spelled fields s → EntryText e s
  | list {s : Bytes} : Bracketed .list (MemberText e) [.key, .value, .created, .accessed] s → EntryText e s

end

/-- The text of what is no entry, as a member is missing or repeated or the list is too short or too long. -/
inductive Defective : Bytes → Prop
  | object {fields : List Field} {member : Member} {s : Bytes} : (∀ f ∈ fields, Formed .value f.value) →
      mentions fields member ≠ 1 → Bracketed .object Field.Spelled fields s → Defective s
  | list {values : List Bytes} {s : Bytes} : (∀ v ∈ values, Formed .value v) → values.length ≠ 4 →
      Bracketed .list Eq values s → Defective s

/-- The text of an entry, or of what is none. -/
def ItemText {K V : Type} [Spelling K] [Spelling V] : Option (Entry K V) → Bytes → Prop
  | some e => EntryText e
  | none => Defective

/-- The text of a whole snapshot. -/
def SnapshotText {α : Type} (text : α → Bytes → Prop) (as : List α) (s : Bytes) : Prop :=
  ∃ before list after, Blank before ∧ Bracketed .list text as list ∧ Blank after ∧ s = before ++ (list ++ after)

/-! ## What is written -/

def Field.write (layout : Layout) (f : Field) : Bytes := Scalar.writeString f.name ++ layout.colon ++ f.value

theorem Field.spelled_write (layout : Layout) (f : Field) : f.Spelled (f.write layout) := by
  obtain ⟨blank, hblank, hcolon⟩ := colon_layout layout
  refine ⟨Scalar.writeString f.name, [], blank, Scalar.stringText_writeString f.name, Json.blank_nil, hblank, ?_⟩
  rw [Field.write, hcolon, List.append_assoc]
  rfl

section
variable {K V : Type} [Scalar K] [Scalar V]

def writtenFields (e : Entry K V) : List Field :=
  [⟨Member.key.name, Scalar.write e.key⟩, ⟨Member.value.name, Scalar.write e.value⟩,
    ⟨Member.created.name, Scalar.write e.created⟩, ⟨Member.accessed.name, Scalar.write e.accessed⟩]

variable [Spelling K] [Spelling V] [LawfulSpelling K] [LawfulSpelling V]

theorem fieldOf_written (e : Entry K V) : ∀ f ∈ writtenFields e, FieldOf e f := by
  have hkey : FieldOf e ⟨Member.key.name, Scalar.write e.key⟩ := .member (LawfulSpelling.spells_write e.key)
  have hvalue : FieldOf e ⟨Member.value.name, Scalar.write e.value⟩ := .member (LawfulSpelling.spells_write e.value)
  have hcreated : FieldOf e ⟨Member.created.name, Scalar.write e.created⟩ :=
    .member (LawfulSpelling.spells_write e.created)
  have haccessed : FieldOf e ⟨Member.accessed.name, Scalar.write e.accessed⟩ :=
    .member (LawfulSpelling.spells_write e.accessed)
  simp only [writtenFields, List.forall_mem_cons]
  exact ⟨hkey, hvalue, hcreated, haccessed, nofun⟩

theorem entryText_writeEntry (layout : Layout) (level : Nat) (e : Entry K V) :
    EntryText e (writeEntry layout level e) := by
  have htext : Bracketed .object Field.Spelled (writtenFields e)
      (layout.bracketed level '{' '}' ((writtenFields e).map (Field.write layout))) :=
    bracketed_written layout level rfl rfl fun f _ => f.spelled_write layout
  refine .object (fieldOf_written e) (fun member => ?_) htext
  cases member <;> rfl

theorem snapshotText_encode (layout : Layout) (es : List (Entry K V)) :
    SnapshotText EntryText es (encode layout (some es)) := by
  have htext : Bracketed .list EntryText es (encode layout (some es)) :=
    bracketed_written layout 0 rfl rfl fun e _ => entryText_writeEntry layout 1 e
  refine ⟨[], encode layout (some es), [], Json.blank_nil, htext, Json.blank_nil, ?_⟩
  rw [List.nil_append, List.append_nil]

end

end Snapshot

end ExpiringCache
