import ExpiringCache.Snapshot.File

/-!
Scripts for a snapshot file in a tree of files: what is done through the file, and what others do to the
tree beside it. All paths start in one directory.
-/
namespace ExpiringCache.Simulation
set_option autoImplicit false

open Files (Path Tree)

inductive FileCommand where
  | create (directory name : String)
  | atPath (path : String)
  | read
  | save (entries : Option (List (Entry String String)))
  /-- gives a file a content, whoever uses it -/
  | overwrite (path : String) (content : Bytes)
  | makeDirectory (path : String)
  | remove (path : String)
  | inspect (path : String)

inductive FileReply where
  | none
  | failed (error : SnapshotError)
  | created (path : String)
  | entries (entries : Option (List (Entry String String)))
  | saved
  | content (bytes : Option Bytes)

structure Workbench where
  directory : String
  layout : Snapshot.Layout
  file : SnapshotFile
  tree : Tree

namespace Workbench

def fresh (directory : String) (layout : Snapshot.Layout) : Workbench :=
  { directory, layout
    file := ⟨Path.ofText directory, layout⟩
    tree := ({} : Tree).set [directory] .directory }

def inside (b : Workbench) (path : String) : Path := (Path.ofText b.directory).join (.ofText path)

/-- The tree after a step that others take; if it is refused, what it did before that stays. -/
def after (b : Workbench) (step : Files.FileM Unit) : Workbench :=
  { b with tree := (step b.tree).2 }

def run (b : Workbench) : FileCommand → FileReply × Workbench
  | .create directory name =>
    match SnapshotFile.create (b.inside directory) (.ofText name) b.layout b.tree with
    | (.ok file, tree) => (.created file.path.text, { b with file, tree })
    | (.error e, tree) => (.failed e, { b with tree })
  | .atPath path => (.none, { b with file := ⟨b.inside path, b.layout⟩ })
  | .read =>
    match b.file.read b.tree with
    | (.ok entries, tree) => (.entries entries, { b with tree })
    | (.error e, tree) => (.failed e, { b with tree })
  | .save entries =>
    match b.file.save entries b.tree with
    | (.ok (), tree) => (.saved, { b with tree })
    | (.error e, tree) => (.failed e, { b with tree })
  | .overwrite path content =>
    let p := b.inside path
    (.none, b.after do
      if let some parent := p.parent then Files.FileM.makeDirs parent
      Files.FileM.write p content)
  | .makeDirectory path => (.none, b.after (Files.FileM.makeDirs (b.inside path)))
  | .remove path => (.none, b.after (Files.FileM.removeAll (b.inside path)))
  | .inspect path =>
    match Files.FileM.read (b.inside path) b.tree with
    | (.ok content, _) => (.content (some content), b)
    | (.error _, _) => (.content none, b)

def files (b : Workbench) : List String := b.tree.listing [b.directory]

end Workbench

end ExpiringCache.Simulation
