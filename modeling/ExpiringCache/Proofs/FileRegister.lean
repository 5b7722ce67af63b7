import ExpiringCache.Proofs.InterruptedSave

/-!
A snapshot file as a register. Main statement: whatever is done with the file at one path, through however
many caches, each reading gives what was saved last, and nothing in the tree is touched but that file, the
one beside it, and the directories above that were missing.
-/
namespace ExpiringCache
set_option autoImplicit false

open Files (FileM Path Tree Location Node Fault)
open Snapshot (Layout)

/-! ## What steps leave alone -/

namespace FileM

/-- A file that is moved comes from the place of its path and goes to that of the other. -/
theorem rename_places {source target : Path} {t t' : Tree}
    (h : FileM.rename source target t = (.ok (), t')) :
    t.Names source source.place ∧ t.Names target target.place ∧
      ∃ content, t' = (t.erase source.place).set target.place (.file content) := by
  simp only [FileM.rename, FileM.bind_apply] at h
  have hread := FileM.read_unchanged source t
  rcases hcontent : FileM.read source t with ⟨f | content, t₁⟩
  · rw [hcontent] at h
    cases h
  rw [hcontent] at h hread
  subst hread
  simp only at h
  rcases hold : FileM.openFile source t₁ with ⟨f | ⟨old, held⟩, t₂⟩
  · rw [hold] at h
    cases h
  obtain ⟨hsource, -, rfl⟩ := FileM.openFile_ok hold
  rw [hold] at h
  simp only at h
  rcases hnew : FileM.openFile target t₂ with ⟨f | ⟨new, held'⟩, t₃⟩
  · rw [hnew] at h
    cases h
  obtain ⟨htarget, -, rfl⟩ := FileM.openFile_ok hnew
  rw [hnew] at h
  cases h
  rw [← hsource.place_eq, ← htarget.place_eq]
  exact ⟨hsource, htarget, content, rfl⟩

end FileM

namespace FileStep

/-- The places where a step may change what stands there. -/
def apart : FileStep → List Location
  | .makeDirs _ => []
  | .touch p => [p.place]
  | .write p _ => [p.place]
  | .rename source target => [source.place, target.place]

/-- The places where a step may put a directory. -/
def Comes : FileStep → Location → Prop
  | .makeDirs p, loc => p.Passes loc
  | _, _ => False

/-- A step, refused or not, changes nothing elsewhere. -/
theorem changes_of_run {step : FileStep} {t t' : Tree} {r : Except Fault Unit} (h : step.run t = (r, t')) :
    t.Changes step.apart step.Comes t' := by
  cases r with
  | error fault =>
    rcases leaves_of_refused h with rfl | hleaves
    · exact .refl _ _ _
    · cases hleaves with
      | directories _ => exact FileM.changes_makeDirs h
      | part hnames _ => exact .set hnames.ne_root (by simp [apart, hnames.place_eq]) _ _ _
  | ok _ =>
    cases step with
    | makeDirs p => exact FileM.changes_makeDirs h
    | touch p =>
      obtain ⟨place, hnames, ⟨content, -, rfl⟩ | ⟨-, rfl⟩⟩ := FileM.touch_ok h
      · exact .refl _ _ _
      · exact .set hnames.ne_root (by simp [apart, hnames.place_eq]) _ _ _
    | write p content =>
      obtain ⟨place, hnames, rfl⟩ := FileM.write_ok h
      exact .set hnames.ne_root (by simp [apart, hnames.place_eq]) _ _ _
    | rename source target =>
      obtain ⟨hsource, htarget, content, rfl⟩ := FileM.rename_places h
      intro loc hloc
      simp only [apart, List.mem_cons, List.not_mem_nil, or_false, not_or] at hloc
      exact .inl (by rw [Tree.lookup_set _ htarget.ne_root, if_neg hloc.2, Tree.lookup_erase _ hsource.ne_root,
        if_neg hloc.1])

theorem changes_of_attemptAll {steps : List FileStep} {apart : List Location} {come : Location → Prop}
    (hsteps : ∀ step ∈ steps, step.apart ⊆ apart ∧ ∀ loc, step.Comes loc → come loc) {t t' : Tree}
    {r : Except SnapshotError Unit} (h : attemptAll steps t = (r, t')) : t.Changes apart come t' := by
  induction steps generalizing t with
  | nil =>
    cases h
    exact .refl _ _ _
  | cons step steps ih =>
    obtain ⟨hapart, hcome⟩ := hsteps step List.mem_cons_self
    rw [attemptAll_cons] at h
    rcases hrun : step.run t with ⟨fault | ⟨⟨⟩⟩, t₁⟩
    · simp only [attempt, hrun] at h
      cases h
      exact (changes_of_run hrun).mono hapart hcome
    · rw [attempt_of_run hrun] at h
      have hrest := ih (fun s hs => hsteps s (List.mem_cons_of_mem step hs)) h
      exact ((changes_of_run hrun).mono hapart hcome).trans hrest

end FileStep

namespace SnapshotFile

/-- The places of the directories that a path stands in. -/
def Above (path : Path) (loc : Location) : Prop := ∃ p, path.parent = some p ∧ p.Passes loc

theorem apart_of_mem_ensureSteps {f : SnapshotFile} {step : FileStep} (h : step ∈ f.ensureSteps) :
    step.apart ⊆ [f.path.place] ∧ ∀ loc, step.Comes loc → Above f.path loc := by
  rcases mem_ensureSteps h with ⟨p, hparent, rfl⟩ | rfl
  · exact ⟨List.nil_subset _, fun _ hpasses => ⟨p, hparent, hpasses⟩⟩
  · exact ⟨List.Subset.refl _, fun _ hnone => hnone.elim⟩

theorem changes_of_ensure {f : SnapshotFile} {t t' : Tree} {r : Except SnapshotError Unit}
    (h : f.ensure t = (r, t')) : t.Changes [f.path.place] (Above f.path) t' :=
  FileStep.changes_of_attemptAll (fun _ hstep => apart_of_mem_ensureSteps hstep) h

theorem changes_of_save {f : SnapshotFile} {content : Bytes} {t t' : Tree} {r : Except SnapshotError Unit}
    (h : FileStep.attemptAll (f.saveSteps content) t = (r, t')) :
    t.Changes [f.path.place, f.temporary.place] (Above f.path) t' := by
  refine FileStep.changes_of_attemptAll (fun step hstep => ?_) h
  rw [saveSteps_eq, List.mem_append] at hstep
  rcases hstep with hensure | hreplace
  · obtain ⟨hapart, hcome⟩ := apart_of_mem_ensureSteps hensure
    exact ⟨List.Subset.trans hapart (by simp), hcome⟩
  · simp only [replaceSteps, List.mem_cons, List.not_mem_nil, or_false] at hreplace
    rcases hreplace with rfl | rfl <;> exact ⟨by simp [FileStep.apart], fun _ hnone => hnone.elim⟩

/-! ## Caches on one path -/

theorem Holds.through {path : Path} {layout layout' : Layout} {t : Tree} {content : Bytes}
    (h : (⟨path, layout⟩ : SnapshotFile).Holds t content) :
    (⟨path, layout'⟩ : SnapshotFile).Holds t content := ⟨h.parent, h.file⟩

theorem Spares.through {path : Path} {layout layout' : Layout} {t t' : Tree}
    (h : (⟨path, layout⟩ : SnapshotFile).Spares t t') : (⟨path, layout'⟩ : SnapshotFile).Spares t t' :=
  ⟨h.kept, fun content hholds => (h.held content hholds.through).through, h.absent⟩

theorem create_eq (directory name : Path) (layout : Layout) (t : Tree) :
    create directory name layout t =
      (((⟨directory.join name, layout⟩ : SnapshotFile).ensure t).1.map
          fun _ => ⟨directory.join name, layout⟩,
        ((⟨directory.join name, layout⟩ : SnapshotFile).ensure t).2) := by
  rw [create]
  rcases (⟨directory.join name, layout⟩ : SnapshotFile).ensure t with ⟨_ | ⟨⟨⟩⟩, _⟩ <;> rfl

section
variable {K V : Type} [Scalar K] [Scalar V]

/-- Reading leaves the tree as making the file does. -/
theorem snd_read (f : SnapshotFile) (t : Tree) :
    (f.read t : Except SnapshotError (Option (List (Entry K V))) × Tree).2 = (f.ensure t).2 := by
  rcases hensure : f.ensure t with ⟨e | ⟨⟨⟩⟩, t'⟩
  · rw [read_of_refused hensure]
  · rw [read_of_ensure hensure]

end

/-! ## Calls -/

/-- What is done with the file at a path, each time through a cache of one layout or the other. -/
inductive Call (K V : Type) (path : Path) where
  | create (directory name : Path) (layout : Layout) (joins : directory.join name = path)
  | atPath (layout : Layout)
  | read (layout : Layout)
  | save (layout : Layout) (data : Option (List (Entry K V)))

inductive Answer (K V : Type) where
  | opened (result : Except SnapshotError SnapshotFile)
  | read (result : Except SnapshotError (Option (List (Entry K V))))
  | saved (result : Except SnapshotError Unit)

section
variable {K V : Type} [Scalar K] [Scalar V] {path : Path}

namespace Call

def perform (t : Tree) : Call K V path → Answer K V × Tree
  | .create directory name layout _ =>
    match SnapshotFile.create directory name layout t with
    | (r, t) => (.opened r, t)
  | .atPath layout => (.opened (.ok ⟨path, layout⟩), t)
  | .read layout =>
    match (⟨path, layout⟩ : SnapshotFile).read t with
    | (r, t) => (.read r, t)
  | .save layout data =>
    match (⟨path, layout⟩ : SnapshotFile).save data t with
    | (r, t) => (.saved r, t)

/-- The data that a call saves, if it is a save and succeeds. -/
def saved (t : Tree) (call : Call K V path) : Option (Option (List (Entry K V))) :=
  match call, (call.perform t).1 with
  | .save _ data, .saved (.ok ()) => some data
  | _, _ => none

/-- The places where a call may change what stands there. -/
def apart : Call K V path → List Location
  | .atPath _ => []
  | .create _ _ _ _ => [path.place]
  | .read _ => [path.place]
  | .save _ _ => [path.place, ({ path } : SnapshotFile).temporary.place]

end Call

/-- The tree, and the data of the last save that succeeded, if one has. -/
structure Register (K V : Type) where
  tree : Tree
  saved : Option (Option (List (Entry K V)))

namespace Register

def start (t : Tree) : Register K V := ⟨t, none⟩

def step (r : Register K V) (call : Call K V path) : Register K V where
  tree := (call.perform r.tree).2
  saved := (call.saved r.tree).or r.saved

def run (r : Register K V) (calls : List (Call K V path)) : Register K V := calls.foldl step r

end Register

namespace Call

/-- A call that saves nothing spares the file. -/
theorem spares_of_saved_eq_none {t : Tree} {call : Call K V path} (h : call.saved t = none) :
    ({ path } : SnapshotFile).Spares t (call.perform t).2 := by
  cases call with
  | create directory name layout joins =>
    cases joins
    have hspares := spares_of_ensure (f := ⟨directory.join name, layout⟩) (t := t) rfl
    simp only [perform, create_eq]
    exact hspares.through
  | atPath layout => exact .refl _ t
  | read layout => exact (spares_of_read (f := ⟨path, layout⟩) (t := t) rfl).through
  | save layout data =>
    simp only [saved, perform] at h ⊢
    rcases hsave : (⟨path, layout⟩ : SnapshotFile).save data t with ⟨e | ⟨⟨⟩⟩, t'⟩
    · rw [save_eq_store] at hsave
      exact (spares_of_refused hsave).through
    · rw [hsave] at h
      cases h

/-- A save that succeeds leaves the text of its data at the path, and nothing beside it. -/
theorem holds_of_saved {t : Tree} {call : Call K V path} {data : Option (List (Entry K V))}
    (h : call.saved t = some data) :
    (∃ layout, ({ path } : SnapshotFile).Holds (call.perform t).2 (Snapshot.encode layout data)) ∧
      (call.perform t).2.lookup ({ path } : SnapshotFile).temporary.place = none := by
  cases call with
  | create directory name layout joins => cases h
  | atPath layout => cases h
  | read layout => cases h
  | save layout data' =>
    simp only [saved, perform] at h ⊢
    rcases hsave : (⟨path, layout⟩ : SnapshotFile).save data' t with ⟨e | ⟨⟨⟩⟩, t'⟩
    · rw [hsave] at h
      cases h
    · rw [hsave] at h
      cases h
      rw [save_eq_store] at hsave
      obtain ⟨hholds, hgone⟩ := holds_of_store hsave
      exact ⟨⟨layout, hholds.through⟩, hgone⟩

/-- A call, refused or not, touches nothing else. -/
theorem changes_of_perform (t : Tree) (call : Call K V path) :
    t.Changes call.apart (Above path) (call.perform t).2 := by
  cases call with
  | create directory name layout joins =>
    cases joins
    simp only [perform, create_eq]
    exact changes_of_ensure (f := ⟨directory.join name, layout⟩) rfl
  | atPath layout => exact .refl _ _ t
  | read layout =>
    simp only [perform, snd_read]
    exact changes_of_ensure (f := ⟨path, layout⟩) rfl
  | save layout data => exact changes_of_save (f := ⟨path, layout⟩) rfl

end Call

/-! ## One call after another -/

namespace Register
variable {r : Register K V}

/-- The file holds the text of what was saved last. -/
def Keeps (path : Path) (r : Register K V) : Prop :=
  ∀ data, r.saved = some data →
    ∃ layout, ({ path } : SnapshotFile).Holds r.tree (Snapshot.encode layout data)

theorem Keeps.step (h : r.Keeps path) (call : Call K V path) : (r.step call).Keeps path := by
  intro data hdata
  cases hsaved : call.saved r.tree with
  | some new =>
    have hnew : new = data := by simpa [Register.step, hsaved] using hdata
    rw [← hnew]
    exact (Call.holds_of_saved hsaved).1
  | none =>
    have hold : r.saved = some data := by simpa [Register.step, hsaved] using hdata
    obtain ⟨layout, hholds⟩ := h data hold
    exact ⟨layout, (Call.spares_of_saved_eq_none hsaved).held _ hholds⟩

theorem Keeps.run (h : r.Keeps path) (calls : List (Call K V path)) : (r.run calls).Keeps path := by
  induction calls generalizing r with
  | nil => exact h
  | cons call calls ih => exact ih (h.step call)

theorem changes_of_run (r : Register K V) (calls : List (Call K V path)) :
    r.tree.Changes [path.place, ({ path } : SnapshotFile).temporary.place] (Above path)
      (r.run calls).tree := by
  induction calls generalizing r with
  | nil => exact .refl _ _ _
  | cons call calls ih =>
    have hapart : call.apart ⊆ [path.place, ({ path } : SnapshotFile).temporary.place] := by
      cases call <;> simp [Call.apart]
    exact ((Call.changes_of_perform r.tree call).mono hapart fun _ h => h).trans (ih (r.step call))

/-- What holds of a snapshot file after any calls: it is read as it was saved last, also through a new cache,
until a save succeeds; nothing but such a save changes the bytes of a file that is there; a save that succeeds
leaves none beside it; and no call touches anything else, except that the directories above the file come
where nothing was. -/
structure Serves (path : Path) (r : Register K V) : Prop where
  read : ∀ layout data, r.saved = some data →
    (⟨path, layout⟩ : SnapshotFile).read r.tree = (.ok data, r.tree)
  create : ∀ directory name layout data, directory.join name = path → r.saved = some data →
    SnapshotFile.create directory name layout r.tree = (.ok ⟨path, layout⟩, r.tree)
  spares : ∀ (call : Call K V path) content, call.saved r.tree = none →
    r.tree.lookup path.place = some (.file content) →
      (r.step call).tree.lookup path.place = some (.file content)
  clean : ∀ (call : Call K V path) data, call.saved r.tree = some data →
    (r.step call).tree.lookup ({ path } : SnapshotFile).temporary.place = none
  frame : ∀ call : Call K V path, r.tree.Changes call.apart (Above path) (r.step call).tree

theorem serves_of_keeps [LawfulScalar K] [LawfulScalar V] (h : r.Keeps path) : r.Serves path where
  read layout data hdata := by
    obtain ⟨written, hholds⟩ := h data hdata
    rw [read_of_holds hholds.through, interpret, Snapshot.decode_encode_option]
    rfl
  create directory name layout data hjoin hdata := by
    obtain ⟨written, hholds⟩ := h data hdata
    subst hjoin
    rw [create_eq, ensure_of_holds hholds.through]
    rfl
  spares call content hnone hfile := (Call.spares_of_saved_eq_none hnone).kept _ hfile
  clean call data hsaved := (Call.holds_of_saved hsaved).2
  frame call := Call.changes_of_perform r.tree call

theorem run_serves [LawfulScalar K] [LawfulScalar V] (t : Tree) (calls : List (Call K V path)) :
    ((start t).run calls : Register K V).Serves path ∧
      t.Changes [path.place, ({ path } : SnapshotFile).temporary.place] (Above path)
        ((start t).run calls : Register K V).tree := by
  have hstart : (start t : Register K V).Keeps path := fun data hdata => by cases hdata
  exact ⟨serves_of_keeps (hstart.run calls), changes_of_run (start t) calls⟩

end Register

end

namespace Register

/-- The file is made with its directory, and a snapshot is saved in it and then another one. -/
def twoSaves : List (Call String String ⟨["d", "s"]⟩) :=
  [.create ⟨["d"]⟩ ⟨["s"]⟩ .compact rfl, .save .compact none, .atPath .indented,
    .save .indented (some [⟨"k", "v", 0, 1⟩])]

theorem saved_twoSaves : ((start {}).run twoSaves : Register String String).saved =
    some (some [⟨"k", "v", 0, 1⟩]) := rfl

theorem run_serves_of_two_saves :
    ((start {}).run twoSaves : Register String String).saved = some (some [⟨"k", "v", 0, 1⟩]) ∧
      ((start {}).run twoSaves : Register String String).Serves ⟨["d", "s"]⟩ ∧
        Tree.Changes [["d", "s"], ["d", "s.tmp"]] (Above ⟨["d", "s"]⟩) {}
          ((start {}).run twoSaves : Register String String).tree :=
  ⟨saved_twoSaves, run_serves {} twoSaves⟩

end Register

end SnapshotFile

end ExpiringCache
