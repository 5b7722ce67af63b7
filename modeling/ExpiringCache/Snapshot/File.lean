import ExpiringCache.Error
import ExpiringCache.Files.Tree
import ExpiringCache.Snapshot.Reader
import ExpiringCache.Snapshot.Writer

/-!
A snapshot kept in a file. Saving writes a file beside the target and then renames it, so that the
target holds one whole snapshot or the other. Reading and saving both make the file, empty, and the
directories above it, where they are missing.
-/
namespace ExpiringCache
set_option autoImplicit false

open Files (FileM Path Tree)
open Snapshot (Layout)

structure SnapshotFile where
  path : Path
  layout : Layout := .compact

inductive FileStep where
  | makeDirs (path : Path)
  | touch (path : Path)
  | write (path : Path) (content : Bytes)
  | rename (source target : Path)

namespace FileStep

/-- The path that the error of a refused step names. -/
def subject : FileStep → Path
  | .makeDirs p => p
  | .touch p => p
  | .write p _ => p
  | .rename _ target => target

def run : FileStep → FileM Unit
  | .makeDirs p => FileM.makeDirs p
  | .touch p => FileM.touch p
  | .write p content => FileM.write p content
  | .rename source target => FileM.rename source target

/-- The step, its refusal told with the path that it concerns. -/
def attempt (step : FileStep) (t : Tree) : Except SnapshotError Unit × Tree :=
  match step.run t with
  | (.ok (), t) => (.ok (), t)
  | (.error f, t) => (.error (.file step.subject.text f), t)

/-- Takes steps, each by `attempt`, up to the first that is refused. -/
def runAll {m : Type → Type} [Monad m] (attempt : FileStep → m (Except SnapshotError Unit)) :
    List FileStep → m (Except SnapshotError Unit)
  | [] => pure (.ok ())
  | step :: steps => do
    match ← attempt step with
    | .ok () => runAll attempt steps
    | .error e => pure (.error e)

/-- Takes steps in a tree up to the first that is refused. -/
def attemptAll (steps : List FileStep) (t : Tree) : Except SnapshotError Unit × Tree :=
  runAll (m := StateM Tree) attempt steps t

theorem attemptAll_cons (step : FileStep) (steps : List FileStep) (t : Tree) :
    attemptAll (step :: steps) t =
      match step.attempt t with
      | (.ok (), t) => attemptAll steps t
      | (.error e, t) => (.error e, t) := by
  simp only [attemptAll, runAll, bind, StateT.bind]
  rcases step.attempt t with ⟨_ | _, _⟩ <;> rfl

end FileStep

namespace SnapshotFile

/-- The file beside the target that a snapshot is written to first. -/
def temporary (f : SnapshotFile) : Path :=
  f.path.withName (f.path.name.getD "" ++ ".tmp")

def ensureSteps (f : SnapshotFile) : List FileStep :=
  (f.path.parent.filter fun p => !p.isEmpty).toList.map .makeDirs ++ [.touch f.path]

def saveSteps (f : SnapshotFile) (content : Bytes) : List FileStep :=
  f.ensureSteps ++ [.write f.temporary content, .rename f.temporary f.path]

def ensure (f : SnapshotFile) (t : Tree) : Except SnapshotError Unit × Tree :=
  FileStep.attemptAll f.ensureSteps t

/-- The file of this name in a directory, made where it is missing. -/
def create (directory name : Path) (layout : Layout) (t : Tree) :
    Except SnapshotError SnapshotFile × Tree :=
  let f : SnapshotFile := ⟨directory.join name, layout⟩
  match f.ensure t with
  | (.ok (), t) => (.ok f, t)
  | (.error e, t) => (.error e, t)

section
variable {K V : Type} [Scalar K] [Scalar V]

def interpret (content : Bytes) : Except SnapshotError (Option (List (Entry K V))) :=
  (Snapshot.decode content).mapError .codec

def read (f : SnapshotFile) (t : Tree) :
    Except SnapshotError (Option (List (Entry K V))) × Tree :=
  match f.ensure t with
  | (.error e, t) => (.error e, t)
  | (.ok (), t) =>
    match FileM.read f.path t with
    | (.error fault, t) => (.error (.file f.path.text fault), t)
    | (.ok content, t) => (interpret content, t)

def save (f : SnapshotFile) (entries : Option (List (Entry K V))) (t : Tree) :
    Except SnapshotError Unit × Tree :=
  FileStep.attemptAll (f.saveSteps (Snapshot.encode f.layout entries)) t

end

end SnapshotFile

end ExpiringCache
