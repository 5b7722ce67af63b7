import ExpiringCache.Files.Fault
import ExpiringCache.Files.Path
import ExpiringCache.Text.Utf8

/-!
A tree of directories and files without links, and the steps that programs take in it: making
directories, opening a file to add to it, writing, reading, renaming. A refused step says why, and
leaves whatever it did before it was refused.
-/
namespace ExpiringCache.Files
set_option autoImplicit false

inductive Node where
  | directory
  | file (content : Bytes)
deriving DecidableEq

abbrev Location := List String

/-- What stands at which place; the root is always a directory. -/
structure Tree where
  nodes : List (Location × Node) := []

namespace Tree

def lookup (t : Tree) (loc : Location) : Option Node :=
  if loc.isEmpty then some .directory else t.nodes.lookup loc

def set (t : Tree) (loc : Location) (node : Node) : Tree :=
  ⟨(loc, node) :: t.nodes.filter fun n => n.1 ≠ loc⟩

def erase (t : Tree) (loc : Location) : Tree :=
  ⟨t.nodes.filter fun n => n.1 ≠ loc⟩

def eraseAll (t : Tree) (loc : Location) : Tree :=
  ⟨t.nodes.filter fun n => !loc.isPrefixOf n.1⟩

/-- The paths of everything below a place, seen from there, in order; directories end in a slash. -/
def listing (t : Tree) (loc : Location) : List String :=
  let paths := t.nodes.filterMap fun (l, node) =>
    let rest := l.drop loc.length
    if loc.isPrefixOf l && !rest.isEmpty then
      some ("/".intercalate rest ++ if node = .directory then "/" else "")
    else none
  paths.mergeSort fun a b => a ≤ b

/-! ## Finding a place -/

def longestName : Nat := 255

def pathBound : Nat := 4096

def walk (t : Tree) (here : Location) : List String → Except Fault Location
  | [] => .ok here
  | piece :: rest =>
    if Path.isIdle piece then t.walk here rest
    else if piece = ".." then t.walk here.dropLast rest
    else if longestName < piece.utf8ByteSize then .error .nameTooLong
    else
      match t.lookup (here ++ [piece]) with
      | none => .error .missing
      | some (.file _) => .error .notDirectory
      | some .directory => t.walk (here ++ [piece]) rest

inductive Target where
  /-- a directory that is there, named by a dot, two dots, or a slash alone -/
  | directory
  /-- a name in a directory, with something there or not; `slash` says that a slash follows it -/
  | entry (parent : Location) (name : String) (slash : Bool)

def locate (t : Tree) (p : Path) : Except Fault Target :=
  if p.pieces.any fun piece => piece.toList.contains '\x00' then .error .zeroByte
  else if p.isEmpty then .error .missing
  else if pathBound ≤ p.text.utf8ByteSize then .error .nameTooLong
  else
    let pieces := p.pieces.filter fun piece => piece ≠ ""
    match pieces.getLast? with
    | none => .ok .directory
    | some last =>
      if last = "." || last = ".." then (t.walk [] pieces).map fun _ => .directory
      else (t.walk [] pieces.dropLast).map fun here =>
        .entry here last (p.pieces.getLast? = some "")

def isDirectory (t : Tree) (p : Path) : Bool :=
  match t.locate p with
  | .error _ => false
  | .ok .directory => true
  | .ok (.entry here name _) => t.lookup (here ++ [name]) = some .directory

end Tree

/-! ## Steps -/

abbrev FileM := ExceptT Fault (StateM Tree)

namespace FileM

def makeDir (p : Path) : FileM Unit := do
  let t ← get
  match t.locate p with
  | .error f => throw f
  | .ok .directory => throw .exists
  | .ok (.entry here name _) =>
    if Tree.longestName < name.utf8ByteSize then throw .nameTooLong
    else if (t.lookup (here ++ [name])).isSome then throw .exists
    else set (t.set (here ++ [name]) .directory)

/-- Makes a directory and those above it that are missing. A directory that is there already does no
harm. Each round goes one directory up. -/
def makeDirsFrom : Nat → Path → FileM Unit
  | 0, _ => throw .missing
  | fuel + 1, p => do
    if p.isEmpty then return
    let accept (f : Fault) : FileM Unit := do
      if (← get).isDirectory p then return else throw f
    tryCatch (makeDir p) fun f => do
      if f = .missing then
        match p.parent with
        | none => throw .missing
        | some parent =>
          makeDirsFrom fuel parent
          tryCatch (makeDir p) accept
      else accept f

def makeDirs (p : Path) : FileM Unit := makeDirsFrom (p.pieces.length + 1) p

def openFile (p : Path) : FileM (Location × Option Bytes) := do
  let t ← get
  match t.locate p with
  | .error f => throw f
  | .ok .directory => throw .isDirectory
  | .ok (.entry here name slash) =>
    if slash then throw .isDirectory
    else if Tree.longestName < name.utf8ByteSize then throw .nameTooLong
    else
      match t.lookup (here ++ [name]) with
      | none => return (here ++ [name], none)
      | some .directory => throw .isDirectory
      | some (.file content) => return (here ++ [name], some content)

def touch (p : Path) : FileM Unit := do
  let (place, content) ← openFile p
  if content.isNone then set ((← get).set place (.file []))

def write (p : Path) (content : Bytes) : FileM Unit := do
  let (place, _) ← openFile p
  set ((← get).set place (.file content))

def read (p : Path) : FileM Bytes := do
  let t ← get
  match t.locate p with
  | .error f => throw f
  | .ok .directory => throw .isDirectory
  | .ok (.entry here name slash) =>
    if Tree.longestName < name.utf8ByteSize then throw .nameTooLong
    else
      match t.lookup (here ++ [name]) with
      | none => throw .missing
      | some .directory => throw .isDirectory
      | some (.file content) => if slash then throw .notDirectory else return content

def rename (source target : Path) : FileM Unit := do
  let content ← read source
  let (old, _) ← openFile source
  let (new, _) ← openFile target
  modify fun t => (t.erase old).set new (.file content)

def removeAll (p : Path) : FileM Unit := do
  let t ← get
  match t.locate p with
  | .error f => throw f
  | .ok .directory => throw .isDirectory
  | .ok (.entry here name _) => set (t.eraseAll (here ++ [name]))

end FileM

end ExpiringCache.Files
