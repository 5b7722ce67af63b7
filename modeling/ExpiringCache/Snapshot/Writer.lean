import ExpiringCache.Entry
import ExpiringCache.Snapshot.Scalar

/-!
The text of a snapshot: a list of entries, each an object of four members, on one line or indented by
two blanks a level. No entries at all, as against an empty list of them, are no bytes at all.
-/
namespace ExpiringCache.Snapshot
set_option autoImplicit false

open Text (ascii)
open Json (Member)

inductive Layout where
  | compact
  | indented
deriving DecidableEq

def Layout.newline (layout : Layout) (level : Nat) : Bytes :=
  match layout with
  | .compact => []
  | .indented => ascii '\n' :: List.replicate (2 * level) (ascii ' ')

def Layout.colon : Layout → Bytes
  | .compact => [ascii ':']
  | .indented => [ascii ':', ascii ' ']

/-- Things one after another at a level, inside brackets; nothing between the brackets if there are
none. -/
def Layout.bracketed (layout : Layout) (level : Nat) (opening closing : Char) (items : List Bytes) :
    Bytes :=
  match items with
  | [] => [ascii opening, ascii closing]
  | item :: items =>
    ascii opening :: layout.newline (level + 1) ++ item
      ++ items.flatMap (fun i => ascii ',' :: layout.newline (level + 1) ++ i)
      ++ layout.newline level ++ [ascii closing]

section
variable {K V : Type} [Scalar K] [Scalar V]

def writeMember (layout : Layout) (member : Member) (value : Bytes) : Bytes :=
  Scalar.writeString member.name ++ layout.colon ++ value

def writeEntry (layout : Layout) (level : Nat) (e : Entry K V) : Bytes :=
  layout.bracketed level '{' '}' [
    writeMember layout .key (Scalar.write e.key),
    writeMember layout .value (Scalar.write e.value),
    writeMember layout .created (Scalar.write e.created),
    writeMember layout .accessed (Scalar.write e.accessed)]

def writeEntries (layout : Layout) (entries : List (Entry K V)) : Bytes :=
  layout.bracketed 0 '[' ']' (entries.map (writeEntry layout 1))

def encode (layout : Layout) : Option (List (Entry K V)) → Bytes
  | none => []
  | some entries => writeEntries layout entries

end

end ExpiringCache.Snapshot
