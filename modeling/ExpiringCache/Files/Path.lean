/-!
Paths as they are written: the pieces between the slashes, empty ones and dots included, so that a path
reads back as it was given. A path's parent and last name leave out what adds nothing at its end.
-/
namespace ExpiringCache.Files
set_option autoImplicit false

structure Path where
  pieces : List String
deriving DecidableEq

namespace Path

def split : List Char → List (List Char)
  | [] => [[]]
  | c :: cs =>
    if c = '/' then [] :: split cs
    else
      match split cs with
      | [] => [[c]]
      | p :: ps => (c :: p) :: ps

def ofText (s : String) : Path := ⟨(split s.toList).map String.ofList⟩

def text (p : Path) : String := "/".intercalate p.pieces

def isEmpty (p : Path) : Bool := p.pieces.all (· == "") && p.pieces.length ≤ 1

def isAbsolute (p : Path) : Bool := p.pieces.head? = some "" && 1 < p.pieces.length

/-- The path `q` seen from `p`: after it and a slash, unless `q` begins at the root. -/
def join (p q : Path) : Path :=
  if q.isAbsolute then q
  else ⟨(if p.pieces.getLast? = some "" then p.pieces.dropLast else p.pieces) ++ q.pieces⟩

/-- A piece that leads nowhere else. -/
def isIdle (piece : String) : Bool := piece = "" || piece = "."

/-- What stands before the first name: the root, or a dot at the very front. -/
def front (p : Path) : List String :=
  if p.isAbsolute then [""]
  else if p.pieces.head? = some "." then ["."]
  else []

/-- The pieces without those at the end that lead nowhere else. -/
def trimEnd (pieces : List String) : List String := (pieces.reverse.dropWhile isIdle).reverse

def body (p : Path) : List String := trimEnd (p.pieces.drop p.front.length)

def rebuild (front body : List String) : Path :=
  match front, body with
  | [""], [] => ⟨["", ""]⟩
  | [], [] => ⟨[""]⟩
  | front, body => ⟨front ++ body⟩

/-- The path up to its last piece that leads somewhere; the root and the empty path have none. -/
def parent (p : Path) : Option Path :=
  if p.body.isEmpty then
    if p.front = ["."] then some ⟨[""]⟩ else none
  else some (rebuild p.front (trimEnd p.body.dropLast))

def name (p : Path) : Option String :=
  p.body.getLast?.filter fun piece => piece ≠ ".."

/-- The path with another last name, which is added where there was none. -/
def withName (p : Path) (name : String) : Path :=
  match p.name, p.parent with
  | some _, some parent => parent.join (ofText name)
  | _, _ => p.join (ofText name)

end Path

end ExpiringCache.Files
