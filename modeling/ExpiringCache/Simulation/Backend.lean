import ExpiringCache.Snapshot.File

/-!
Keepers of snapshots for a simulation: in memory or in a file of their own, as slow and as unreliable as
they are told to be.
-/
namespace ExpiringCache.Simulation
set_option autoImplicit false

abbrev Entries := List (Entry String String)

inductive Medium where
  /-- what was saved last, and how often something was saved -/
  | memory (data : Option Entries) (saves : Nat)
  | file (file : SnapshotFile) (tree : Files.Tree)

/-- A keeper: whether reading works, whether each saving works (the last word holds for all later
ones), and how long both take. -/
structure Backend where
  medium : Medium
  readable : Bool := true
  responses : List Bool := []
  readTime : Nat := 0
  saveTime : Nat := 0

namespace Backend

def filePath : Files.Path := ⟨["snapshot.json"]⟩

def fileMedium (layout : Snapshot.Layout) (content : Option Bytes) : Medium :=
  let tree : Files.Tree := match content with
    | some bytes => ⟨[(["snapshot.json"], .file bytes)]⟩
    | none => {}
  .file ⟨filePath, layout⟩ tree

def fileContent (tree : Files.Tree) : Option Bytes :=
  match tree.lookup ["snapshot.json"] with
  | some (.file bytes) => some bytes
  | _ => none

def read (b : Backend) : Option (Option Entries) × Backend :=
  if !b.readable then (none, b)
  else
    match b.medium with
    | .memory data _ => (some data, b)
    | .file file tree =>
      match file.read tree with
      | (.ok data, tree) => (some data, { b with medium := .file file tree })
      | (.error _, tree) => (none, { b with medium := .file file tree })

def respond (b : Backend) : Bool × Backend :=
  match b.responses with
  | [] => (true, b)
  | [response] => (response, b)
  | response :: rest => (response, { b with responses := rest })

/-- Saves entries; `response` says whether the keeper takes them. Says whether that worked. -/
def save (b : Backend) (response : Bool) (entries : Entries) : Bool × Backend :=
  if !response then (false, b)
  else
    match b.medium with
    | .memory _ saves => (true, { b with medium := .memory (some entries) (saves + 1) })
    | .file file tree =>
      match file.save (some entries) tree with
      | (.ok (), tree) => (true, { b with medium := .file file tree })
      | (.error _, tree) => (false, { b with medium := .file file tree })

end Backend

end ExpiringCache.Simulation
