import ExpiringCache.Proofs.Directories
import ExpiringCache.Proofs.FileRegister

/-!
Snapshot files side by side in one directory. Saving one of them writes to a file beside it, which is named after
it, so the names have to differ from one another and from those. Main statement: whatever is done with such files,
in any order, each is read and kept as if the others were not there.
-/
namespace ExpiringCache
set_option autoImplicit false

open Files (FileM Path Tree Location Node Fault)
open Snapshot (Layout)

/-! ## Files in a directory -/

namespace Files.Path
variable {directory : Path} {name other : String}

/-- What a file in a directory can be called. -/
structure FileName (name : String) : Prop where
  plain : '/' ∉ name.toList
  busy : ¬ isIdle name = true
  down : name ≠ ".."

/-- The pieces that come before a name when it is joined to a path. -/
def stem (p : Path) : List String := if p.pieces.getLast? = some "" then p.pieces.dropLast else p.pieces

theorem busy_stem (p : Path) : busy p.stem = busy p.pieces := by
  unfold stem
  split
  · rename_i hlast
    obtain ⟨rest, hrest⟩ := List.getLast?_eq_some_iff.mp hlast
    rw [hrest, List.dropLast_concat, busy_append]
    exact (List.append_nil _).symm
  · rfl

def fileIn (directory : Path) (name : String) : Path := directory.join (ofText name)

theorem ofText_pieces (h : FileName name) : ofText name = ⟨[name]⟩ := by
  rw [ofText, split_of_noSlash h.plain, List.map_singleton, String.ofList_toList]

theorem pieces_fileIn (h : FileName name) (directory : Path) :
    (fileIn directory name).pieces = directory.stem ++ [name] := by
  rw [fileIn, ofText_pieces h, join, if_neg (by simp [isAbsolute])]
  rfl

theorem getLast?_fileIn (h : FileName name) (directory : Path) :
    (fileIn directory name).pieces.getLast? = some name := by
  rw [pieces_fileIn h, List.getLast?_concat]

theorem place_fileIn (h : FileName name) (directory : Path) :
    (fileIn directory name).place = directory.place ++ [name] := by
  rw [place, pieces_fileIn h, resolve_append, ← resolve_busy [] directory.stem, busy_stem, resolve_busy, resolve,
    if_neg h.busy, if_neg h.down]
  rfl

theorem front_concat (pieces : List String) (h : FileName name) :
    (⟨pieces ++ [name]⟩ : Path).front =
      match pieces with
      | [] => []
      | first :: _ => if first = "" then [""] else if first = "." then ["."] else [] := by
  cases pieces with
  | nil =>
    have hdot : name ≠ "." := fun hname => h.busy (by simp [isIdle, hname])
    simp [front, isAbsolute, hdot]
  | cons first rest => simp [front, isAbsolute]

theorem parent_concat (pieces : List String) (h : FileName name) :
    (⟨pieces ++ [name]⟩ : Path).parent =
      some (rebuild (⟨pieces ++ [name]⟩ : Path).front
        (trimEnd (pieces.drop (⟨pieces ++ [name]⟩ : Path).front.length))) := by
  have hlength : (⟨pieces ++ [name]⟩ : Path).front.length ≤ pieces.length := by
    rw [front_concat pieces h]
    cases pieces with
    | nil => exact Nat.le_refl 0
    | cons first rest => dsimp only; split_ifs <;> simp
  have hbody : (⟨pieces ++ [name]⟩ : Path).body =
      pieces.drop (⟨pieces ++ [name]⟩ : Path).front.length ++ [name] := by
    rw [body, List.drop_append_of_le_length hlength, trimEnd_concat h.busy]
  rw [parent, hbody, List.dropLast_concat, if_neg (by simp)]

/-- Files in one directory stand in the same one. -/
theorem parent_fileIn (h : FileName name) (h' : FileName other) (directory : Path) :
    (fileIn directory name).parent = (fileIn directory other).parent := by
  have hname : fileIn directory name = ⟨directory.stem ++ [name]⟩ := congrArg Path.mk (pieces_fileIn h directory)
  have hother : fileIn directory other = ⟨directory.stem ++ [other]⟩ := congrArg Path.mk (pieces_fileIn h' directory)
  rw [hname, hother, parent_concat _ h, parent_concat _ h', front_concat _ h, front_concat _ h']

/-- The directory that a file stands in is where it was put. -/
theorem place_parent (h : FileName name) {q : Path} (hparent : (fileIn directory name).parent = some q) :
    q.place = directory.place := by
  have hbusy : busy q.pieces = busy directory.stem := by
    rw [busy_parent hparent, pieces_fileIn h, busy_concat h.busy, List.dropLast_concat]
  rw [place, place, ← resolve_busy [] q.pieces, hbusy, busy_stem, resolve_busy]

end Files.Path

/-! ## Files beside others -/

namespace SnapshotFile
open Files.Path (FileName fileIn)

section
variable {directory : Path} {name other : String}

theorem fileName_temporary (h : FileName name) : FileName (name ++ ".tmp") := by
  have hlong : ∀ short : String, short.length < 4 → name ++ ".tmp" ≠ short := by
    rintro short hshort rfl
    have hlength : (name ++ ".tmp").length = name.length + 4 := String.length_append _ _
    omega
  refine ⟨?_, ?_, hlong ".." (by decide)⟩
  · simp [h.plain]
  · simp [Path.isIdle, hlong "" (by decide), hlong "." (by decide)]

theorem place_temporary (h : FileName name) (directory : Path) :
    ({ path := fileIn directory name } : SnapshotFile).temporary.place = directory.place ++ [name ++ ".tmp"] := by
  obtain ⟨q, hparent⟩ := Path.exists_parent (Path.getLast?_fileIn h directory) h.busy
  have hname := Path.name_of_getLast? (Path.getLast?_fileIn h directory) h.busy h.down
  rw [temporary, Path.withName]
  simp only [hname, hparent, Option.getD_some]
  have hplace := Path.place_fileIn (fileName_temporary h) q
  rw [fileIn] at hplace
  rw [hplace, Path.place_parent h hparent]

end

end SnapshotFile

/-! ## Directories stay -/

namespace FileStep

theorem keepsDirectories_of_run {step : FileStep} {t t' : Tree} {r : Except Fault Unit}
    (h : step.run t = (r, t')) : t.KeepsDirectories t' := by
  cases r with
  | error fault =>
    rcases leaves_of_refused h with rfl | hleaves
    · exact .refl _
    · cases hleaves with
      | directories hadds => exact fun loc hloc => hadds.lookup hloc
      | part hnames _ => exact Tree.keepsDirectories_set hnames.ne_root hnames.free _
  | ok _ =>
    cases step with
    | makeDirs p => exact (FileM.made_makeDirs h).keeps
    | touch p =>
      obtain ⟨place, hnames, ⟨content, -, rfl⟩ | ⟨-, rfl⟩⟩ := FileM.touch_ok h
      · exact .refl _
      · exact Tree.keepsDirectories_set hnames.ne_root hnames.free _
    | write p content =>
      obtain ⟨place, hnames, rfl⟩ := FileM.write_ok h
      exact Tree.keepsDirectories_set hnames.ne_root hnames.free _
    | rename source target =>
      obtain ⟨hsource, htarget, content, rfl⟩ := FileM.rename_places h
      have herased : t.KeepsDirectories (t.erase source.place) :=
        Tree.keepsDirectories_erase hsource.ne_root hsource.free
      have hfree : (t.erase source.place).lookup target.place ≠ some .directory := by
        rw [Tree.lookup_erase t hsource.ne_root]
        split
        · simp
        · exact htarget.free
      exact herased.trans (Tree.keepsDirectories_set htarget.ne_root hfree _)

theorem keepsDirectories_of_attemptAll {steps : List FileStep} {t t' : Tree} {r : Except SnapshotError Unit}
    (h : attemptAll steps t = (r, t')) : t.KeepsDirectories t' := by
  induction steps generalizing t with
  | nil =>
    cases h
    exact .refl _
  | cons step steps ih =>
    rw [attemptAll_cons] at h
    rcases hrun : step.run t with ⟨fault | ⟨⟨⟩⟩, t₁⟩
    · simp only [attempt, hrun] at h
      cases h
      exact keepsDirectories_of_run hrun
    · rw [attempt_of_run hrun] at h
      exact (keepsDirectories_of_run hrun).trans (ih h)

end FileStep

namespace SnapshotFile
open Files.Path (FileName fileIn)

section
variable {K V : Type} [Scalar K] [Scalar V] {path : Path} {t t₁ t' : Tree}

/-! ## The directory first -/

/-- What is done before a file is opened: its directory is made. -/
def prepare (path : Path) (t : Tree) : Except SnapshotError Unit × Tree :=
  FileStep.attemptAll ((path.parent.filter fun p => !p.isEmpty).toList.map .makeDirs) t

/-- The directory of the file is there. -/
def Grounded (path : Path) (t : Tree) : Prop :=
  ∀ q, path.parent = some q → q.isEmpty = false → t.isDirectory q = true

theorem prepare_congr {path' : Path} (h : path.parent = path'.parent) (t : Tree) :
    prepare path t = prepare path' t := by
  rw [prepare, h]
  rfl

theorem ensure_eq (f : SnapshotFile) (t : Tree) :
    f.ensure t =
      match prepare f.path t with
      | (.ok (), t) => FileStep.attemptAll [.touch f.path] t
      | (.error e, t) => (.error e, t) :=
  FileStep.attemptAll_append _ _ t

/-- Either there is no directory to be made, or making it is all there is to do. -/
theorem prepare_cases (path : Path) :
    (∃ q, path.parent = some q ∧ q.isEmpty = false ∧ ∀ t, prepare path t = FileStep.attemptAll [.makeDirs q] t) ∨
      (∀ q, path.parent = some q → q.isEmpty = true) ∧ ∀ t, prepare path t = (.ok (), t) := by
  cases hparent : path.parent with
  | none => exact .inr ⟨nofun, fun t => by rw [prepare, hparent]; rfl⟩
  | some q =>
    cases hempty : q.isEmpty with
    | true =>
      refine .inr ⟨fun q' hq => by cases hq; exact hempty, fun t => ?_⟩
      rw [prepare, hparent, Option.filter_some_neg (by simp [hempty])]
      rfl
    | false =>
      refine .inl ⟨q, rfl, hempty, fun t => ?_⟩
      rw [prepare, hparent, Option.filter_some_pos (by simp [hempty])]
      rfl

theorem prepare_of_grounded (h : Grounded path t) : prepare path t = (.ok (), t) := by
  rcases prepare_cases path with ⟨q, hparent, hfull, hprepare⟩ | ⟨-, hprepare⟩
  · have hrun : (FileStep.makeDirs q).run t = (.ok (), t) := FileM.makeDirs_of_isDirectory (h q hparent hfull)
    rw [hprepare, FileStep.attemptAll_cons, FileStep.attempt_of_run hrun]
    rfl
  · exact hprepare t

theorem grounded_of_prepare (h : prepare path t = (.ok (), t₁)) : Grounded path t₁ := by
  intro q hparent hfull
  rcases prepare_cases path with ⟨q', hparent', -, hprepare⟩ | ⟨hempty, -⟩
  · cases hparent.symm.trans hparent'
    rw [hprepare] at h
    obtain ⟨t₂, hrun, hend⟩ := FileStep.attemptAll_cons_ok h
    cases hend
    exact (FileM.made_makeDirs hrun).there rfl hfull
  · rw [hempty q hparent] at hfull
    cases hfull

/-- A refusal to make the directory tells which one, and is given again. -/
theorem prepare_refused_again {e : SnapshotError} (h : prepare path t = (.error e, t₁)) :
    ∃ q fault fault', path.parent = some q ∧ (FileM.makeDirs q t).1 = .error fault ∧
      e = .file q.text fault ∧ (prepare path t₁).1 = .error (.file q.text fault') := by
  rcases prepare_cases path with ⟨q, hparent, -, hprepare⟩ | ⟨-, hprepare⟩
  · rw [hprepare, FileStep.attemptAll_cons] at h
    rcases hrun : (FileStep.makeDirs q).run t with ⟨fault | ⟨⟨⟩⟩, t₂⟩
    · simp only [FileStep.attempt, hrun] at h
      cases h
      obtain ⟨fault', hagain⟩ := FileM.makeDirs_refused_again hrun
      refine ⟨q, fault, fault', hparent, congrArg Prod.fst hrun, rfl, ?_⟩
      rw [hprepare, FileStep.attemptAll_cons]
      rcases hrun' : (FileStep.makeDirs q).run t₁ with ⟨r, t₃⟩
      have hr : r = .error fault' := (congrArg Prod.fst hrun').symm.trans hagain
      subst hr
      simp only [FileStep.attempt, hrun']
      rfl
    · rw [FileStep.attempt_of_run hrun] at h
      cases h
  · rw [hprepare] at h
    cases h

/-- Making the directory beforehand makes no difference to what is done then. -/
theorem ensure_of_prepared {f : SnapshotFile} (h : prepare f.path t = (.ok (), t₁)) : f.ensure t₁ = f.ensure t := by
  rw [ensure_eq, ensure_eq, h, prepare_of_grounded (grounded_of_prepare h)]

theorem saveSteps_of_grounded {f : SnapshotFile} (h : Grounded f.path t) (content : Bytes) :
    FileStep.attemptAll (f.saveSteps content) t =
      FileStep.attemptAll (.touch f.path :: f.replaceSteps content) t := by
  have hensure : FileStep.attemptAll f.ensureSteps t = FileStep.attemptAll [.touch f.path] t := by
    have heq := ensure_eq f t
    rw [prepare_of_grounded h] at heq
    exact heq
  rw [saveSteps_eq, FileStep.attemptAll_append, hensure]
  exact (FileStep.attemptAll_append [.touch f.path] (f.replaceSteps content) t).symm

/-! ## What a call does beside its file -/

namespace Call

theorem keepsDirectories (call : Call K V path) (t : Tree) : t.KeepsDirectories (call.perform t).2 := by
  cases call with
  | create directory name layout joins =>
    simp only [perform, create_eq]
    exact FileStep.keepsDirectories_of_attemptAll rfl
  | atPath layout => exact .refl t
  | read layout =>
    simp only [perform, snd_read]
    exact FileStep.keepsDirectories_of_attemptAll rfl
  | save layout data => exact FileStep.keepsDirectories_of_attemptAll rfl

theorem perform_of_prepared (h : prepare path t = (.ok (), t₁)) (call : Call K V path) :
    call.perform t₁ = call.perform t ∨ (call.perform t).2 = t := by
  cases call with
  | create directory name layout joins =>
    cases joins
    have hensure := ensure_of_prepared (f := ⟨directory.join name, layout⟩) h
    exact .inl (by simp only [perform, create_eq, hensure])
  | atPath layout => exact .inr rfl
  | read layout =>
    have hensure := ensure_of_prepared (f := ⟨path, layout⟩) h
    exact .inl (by simp only [perform, SnapshotFile.read, hensure])
  | save layout data =>
    have hensure := ensure_of_prepared (f := ⟨path, layout⟩) h
    exact .inl (by simp only [perform, save_eq_store, store, hensure])

theorem perform_of_refused {e : SnapshotError} (h : prepare path t = (.error e, t₁)) (call : Call K V path) :
    (call.perform t).2 = t₁ ∨ (call.perform t).2 = t := by
  have hensure : ∀ layout, (⟨path, layout⟩ : SnapshotFile).ensure t = (.error e, t₁) := fun layout => by
    rw [ensure_eq, h]
  cases call with
  | create directory name layout joins =>
    cases joins
    exact .inl (by simp only [perform, create_eq, hensure])
  | atPath layout => exact .inr rfl
  | read layout => exact .inl (by simp only [perform, snd_read, hensure])
  | save layout data => exact .inl (by simp only [perform, save_eq_store, store, hensure])

/-- Where the directory is there, a call makes none. -/
theorem changes_of_grounded (h : Grounded path t) (call : Call K V path) :
    t.Changes [path.place, ({ path } : SnapshotFile).temporary.place] (fun _ => False) (call.perform t).2 := by
  have hensure : ∀ layout, (⟨path, layout⟩ : SnapshotFile).ensure t = FileStep.attemptAll [.touch path] t :=
    fun layout => by rw [ensure_eq, prepare_of_grounded h]
  have htouch : t.Changes [path.place, ({ path } : SnapshotFile).temporary.place] (fun _ => False)
      (FileStep.attemptAll [.touch path] t).2 :=
    FileStep.changes_of_attemptAll (by simp [FileStep.apart, FileStep.Comes]) rfl
  cases call with
  | create directory name layout joins =>
    cases joins
    simp only [perform, create_eq, hensure]
    exact htouch
  | atPath layout => exact .refl _ _ t
  | read layout =>
    simp only [perform, snd_read, hensure]
    exact htouch
  | save layout data =>
    have hsteps := saveSteps_of_grounded (f := ⟨path, layout⟩) h (Snapshot.encode layout data)
    simp only [perform, SnapshotFile.save, hsteps]
    exact FileStep.changes_of_attemptAll (by simp [FileStep.apart, FileStep.Comes, replaceSteps, temporary]) rfl

end Call

/-! ## What a file gives -/

theorem fst_touch_eq {p : Path} (hlocate : t'.locate p = t.locate p)
    (hlookup : t'.lookup p.place = t.lookup p.place) : (FileM.touch p t').1 = (FileM.touch p t).1 := by
  have hopen : (FileM.openFile p t').1 = (FileM.openFile p t).1 := by
    simp only [FileM.openFile, FileM.bind_apply, FileM.get_apply, hlocate]
    cases htarget : t.locate p with
    | error f => rfl
    | ok target =>
      cases target with
      | directory => rfl
      | entry here name slash =>
        simp only [(Tree.ends_of_locate htarget).place, hlookup]
        split
        · rfl
        · split
          · rfl
          · rcases t.lookup p.place with _ | _ | content <;> rfl
  rw [FileM.touch, FileM.bind_apply, FileM.bind_apply]
  rcases hopened : FileM.openFile p t with ⟨f | ⟨place, content⟩, t₁⟩
  · rcases hopened' : FileM.openFile p t' with ⟨r, t₂⟩
    rw [hopened, hopened'] at hopen
    cases hopen
    rfl
  · rcases hopened' : FileM.openFile p t' with ⟨r, t₂⟩
    rw [hopened, hopened'] at hopen
    cases hopen
    simp only
    split <;> rfl

theorem fst_attemptAll_singleton (step : FileStep) (t : Tree) :
    (FileStep.attemptAll [step] t).1 = (step.run t).1.mapError fun fault => .file step.subject.text fault := by
  rw [FileStep.attemptAll_cons, FileStep.attempt]
  rcases step.run t with ⟨fault | ⟨⟨⟩⟩, t₁⟩ <;> rfl

/-- A file is read as what is stored in it, unless it cannot be opened. -/
theorem fst_read (f : SnapshotFile) (t : Tree) :
    ((f.read t).1 : Except SnapshotError (Option (List (Entry K V)))) =
      (f.ensure t).1.bind fun _ => interpret (f.stored t) := by
  rcases hensure : f.ensure t with ⟨e | ⟨⟨⟩⟩, t₁⟩
  · rw [read_of_refused hensure]
    rfl
  · rw [read_of_ensure hensure]
    rfl

/-- As long as its directory is there and its own place keeps what it has, a file gives the same. -/
theorem fst_read_eq_of_grounded {f : SnapshotFile} {directory : Path} {name : String} (hname : FileName name)
    (hpath : f.path = fileIn directory name) (h : Grounded f.path t) (hkeeps : t.KeepsDirectories t')
    (hlookup : t'.lookup f.path.place = t.lookup f.path.place) :
    ((f.read t').1 : Except SnapshotError (Option (List (Entry K V)))) = (f.read t).1 := by
  have hlast : f.path.pieces.getLast? = some name := by rw [hpath, Path.getLast?_fileIn hname]
  have hlocate := Files.Tree.locate_eq_of_parent hlast hname.busy hname.down hkeeps h
  have htouch := fst_touch_eq hlocate hlookup
  have hground : Grounded f.path t' := fun q hparent hfull => Tree.isDirectory_mono hkeeps (h q hparent hfull)
  have hensure : (f.ensure t').1 = (f.ensure t).1 := by
    rw [ensure_eq, ensure_eq, prepare_of_grounded h, prepare_of_grounded hground]
    simp only [fst_attemptAll_singleton, FileStep.run, htouch]
  have hstored : f.stored t' = f.stored t := by rw [stored, stored, FileM.found, FileM.found, hlookup]
  rw [fst_read, fst_read, hensure, hstored]

/-- Something happens to other files only: what stands at the path stays, and is read as before. Where the
directory of the file cannot be made, both readings are refused over it, perhaps for different reasons. -/
structure Unmoved (K V : Type) [Scalar K] [Scalar V] (path : Path) (t t' : Tree) : Prop where
  file {content : Bytes} : t.lookup path.place = some (.file content) → t'.lookup path.place = some (.file content)
  read (layout : Layout) :
    (((⟨path, layout⟩ : SnapshotFile).read t').1 : Except SnapshotError (Option (List (Entry K V)))) =
        ((⟨path, layout⟩ : SnapshotFile).read t).1 ∨
      ∃ q fault fault', path.parent = some q ∧ (FileM.makeDirs q t).1 = .error fault ∧
        (((⟨path, layout⟩ : SnapshotFile).read t).1 : Except SnapshotError (Option (List (Entry K V)))) =
          .error (.file q.text fault) ∧
        (((⟨path, layout⟩ : SnapshotFile).read t').1 : Except SnapshotError (Option (List (Entry K V)))) =
          .error (.file q.text fault')

/-- Two names that go together in one directory: neither is the other, nor what the other is saved through. -/
structure Compatible (name other : String) : Prop where
  valid : FileName name
  valid' : FileName other
  ne : name ≠ other
  ne_temporary : name ≠ other ++ ".tmp"
  temporary_ne : other ≠ name ++ ".tmp"

/-- The place of one file is none where a call on the other may change what stands there. -/
theorem Compatible.apart {name other : String} (h : Compatible name other) (directory : Path) :
    (fileIn directory other).place ∉
      [(fileIn directory name).place, ({ path := fileIn directory name } : SnapshotFile).temporary.place] := by
  rw [place_temporary h.valid, Path.place_fileIn h.valid, Path.place_fileIn h.valid']
  simp [h.ne.symm, h.temporary_ne]

theorem Call.file_unmoved {directory : Path} {name other : String} (h : Compatible name other)
    (call : Call K V (fileIn directory name)) {t : Tree} {content : Bytes}
    (hfile : t.lookup (fileIn directory other).place = some (.file content)) :
    (call.perform t).2.lookup (fileIn directory other).place = some (.file content) := by
  have happart : call.apart ⊆ [(fileIn directory name).place,
      ({ path := fileIn directory name } : SnapshotFile).temporary.place] := by
    cases call <;> simp [Call.apart]
  rcases call.changes_of_perform t _ fun hmem => h.apart directory (happart hmem) with hsame | ⟨hnone, -⟩
  · rw [hsame, hfile]
  · rw [hfile] at hnone
    cases hnone

/-- A call on one file, refused or not, leaves the other as it is. -/
theorem Call.unmoved {directory : Path} {name other : String} (h : Compatible name other)
    (call : Call K V (fileIn directory name)) (t : Tree) :
    Unmoved K V (fileIn directory other) t (call.perform t).2 := by
  have hparent := Path.parent_fileIn h.valid h.valid' directory
  refine ⟨fun hfile => call.file_unmoved h hfile, fun layout => ?_⟩
  rcases hprepare : prepare (fileIn directory name) t with ⟨e | ⟨⟨⟩⟩, t₁⟩
  · rcases call.perform_of_refused hprepare with hafter | hafter
    · rw [prepare_congr hparent] at hprepare
      obtain ⟨q, fault, fault', hq, hmake, rfl, hagain⟩ := prepare_refused_again hprepare
      refine .inr ⟨q, fault, fault', hq, hmake, ?_, ?_⟩
      · rw [fst_read, ensure_eq, hprepare]
        rfl
      · rw [hafter, fst_read, ensure_eq]
        rcases hprepare' : prepare (fileIn directory other) t₁ with ⟨r, t₂⟩
        rw [hprepare'] at hagain
        cases hagain
        rfl
    · exact .inl (by rw [hafter])
  · rcases call.perform_of_prepared hprepare with hsame | hafter
    · have hground := grounded_of_prepare hprepare
      have hprepare' := hprepare
      rw [prepare_congr hparent] at hprepare'
      -- from the tree with the directory in it the call makes none, so the other place keeps what it has
      have hlookup : (call.perform t₁).2.lookup (fileIn directory other).place =
          t₁.lookup (fileIn directory other).place := by
        rcases call.changes_of_grounded hground _ (h.apart directory) with hkept | ⟨-, -, hnone⟩
        · exact hkept
        · exact hnone.elim
      have hread := fst_read_eq_of_grounded (K := K) (V := V)
        (f := ⟨fileIn directory other, layout⟩) h.valid' rfl (grounded_of_prepare hprepare')
        (call.keepsDirectories t₁) hlookup
      have hbefore : ((⟨fileIn directory other, layout⟩ : SnapshotFile).read t₁ :
          Except SnapshotError (Option (List (Entry K V))) × Tree) =
            (⟨fileIn directory other, layout⟩ : SnapshotFile).read t := by
        have hensure := ensure_of_prepared (f := ⟨fileIn directory other, layout⟩) hprepare'
        simp only [SnapshotFile.read, hensure]
      exact .inl (by rw [← hsame, hread, hbefore])
    · exact .inl (by rw [hafter])

end

/-! ## Any number of files in a directory -/

/-- Files in one directory: the tree, and what each was last saved with, if it was. -/
structure Shelf (ι K V : Type) where
  tree : Tree
  saved : ι → Option (Option (List (Entry K V)))

namespace Shelf

section
variable {ι K V : Type} [DecidableEq ι] [Scalar K] [Scalar V] {directory : Path} {names : ι → String}
  {s : Shelf ι K V} {t : Tree}

def start (t : Tree) : Shelf ι K V := ⟨t, fun _ => none⟩

/-- A call on one of the files. -/
def step (s : Shelf ι K V) (use : Σ i, Call K V (fileIn directory (names i))) : Shelf ι K V where
  tree := (use.2.perform s.tree).2
  saved := Function.update s.saved use.1 ((use.2.saved s.tree).or (s.saved use.1))

def run (s : Shelf ι K V) (uses : List (Σ i, Call K V (fileIn directory (names i)))) : Shelf ι K V :=
  uses.foldl step s

/-- Each file holds what was saved in it last, and if nothing was, what it held at the start. -/
structure Keeps (directory : Path) (names : ι → String) (t : Tree) (s : Shelf ι K V) : Prop where
  saved (i : ι) {data : Option (List (Entry K V))} : s.saved i = some data →
    ∃ layout, ({ path := fileIn directory (names i) } : SnapshotFile).Holds s.tree (Snapshot.encode layout data)
  unsaved (i : ι) {content : Bytes} : s.saved i = none →
    t.lookup (fileIn directory (names i)).place = some (.file content) →
      s.tree.lookup (fileIn directory (names i)).place = some (.file content)

omit [DecidableEq ι] in
theorem keeps_start (t : Tree) : (start t : Shelf ι K V).Keeps directory names t :=
  ⟨fun _ _ hdata => absurd hdata nofun, fun _ _ _ hfile => hfile⟩

theorem Keeps.step (hnames : ∀ i j, i ≠ j → Compatible (names i) (names j)) (h : s.Keeps directory names t)
    (use : Σ i, Call K V (fileIn directory (names i))) : (s.step use).Keeps directory names t := by
  obtain ⟨i, call⟩ := use
  refine ⟨fun j data hdata => ?_, fun j content hnone hfile => ?_⟩
  · by_cases hj : j = i
    · subst hj
      simp only [Shelf.step, Function.update_self] at hdata
      cases hsaved : call.saved s.tree with
      | some new =>
        rw [hsaved] at hdata
        cases hdata
        exact (Call.holds_of_saved hsaved).1
      | none =>
        rw [hsaved] at hdata
        obtain ⟨layout, hholds⟩ := h.saved j hdata
        exact ⟨layout, (Call.spares_of_saved_eq_none hsaved).held _ hholds⟩
    · simp only [Shelf.step, Function.update_of_ne hj] at hdata
      obtain ⟨layout, hholds⟩ := h.saved j hdata
      exact ⟨layout, hholds.mono (call.keepsDirectories s.tree)
        (call.file_unmoved (hnames i j (Ne.symm hj)) hholds.lookup)⟩
  · by_cases hj : j = i
    · subst hj
      simp only [Shelf.step, Function.update_self, Option.or_eq_none_iff] at hnone
      exact (Call.spares_of_saved_eq_none hnone.1).kept _ (h.unsaved j hnone.2 hfile)
    · simp only [Shelf.step, Function.update_of_ne hj] at hnone
      exact call.file_unmoved (hnames i j (Ne.symm hj)) (h.unsaved j hnone hfile)

theorem Keeps.run (hnames : ∀ i j, i ≠ j → Compatible (names i) (names j)) (h : s.Keeps directory names t)
    (uses : List (Σ i, Call K V (fileIn directory (names i)))) : (s.run uses).Keeps directory names t := by
  induction uses generalizing s with
  | nil => exact h
  | cons use uses ih => exact ih (h.step hnames use)

/-- What holds of files side by side after any calls on them. No call on one changes what another gives or makes it
disappear; each is read as it was saved last; and one that has not been saved holds what it held. -/
structure Separate (directory : Path) (names : ι → String) (t : Tree) (s : Shelf ι K V) : Prop where
  unmoved {i j : ι} (call : Call K V (fileIn directory (names i))) : i ≠ j →
    Unmoved K V (fileIn directory (names j)) s.tree (s.step ⟨i, call⟩).tree
  read (i : ι) (layout : Layout) {data : Option (List (Entry K V))} : s.saved i = some data →
    (⟨fileIn directory (names i), layout⟩ : SnapshotFile).read s.tree = (.ok data, s.tree)
  kept (i : ι) {content : Bytes} : s.saved i = none →
    t.lookup (fileIn directory (names i)).place = some (.file content) →
      s.tree.lookup (fileIn directory (names i)).place = some (.file content)

theorem run_separate [LawfulScalar K] [LawfulScalar V] (directory : Path)
    (hnames : ∀ i j, i ≠ j → Compatible (names i) (names j)) (t : Tree)
    (uses : List (Σ i, Call K V (fileIn directory (names i)))) :
    ((start t : Shelf ι K V).run uses).Separate directory names t := by
  have hkeeps := (keeps_start t).run hnames uses
  refine ⟨fun call hne => call.unmoved (hnames _ _ hne) _, fun i layout data hdata => ?_, hkeeps.unsaved⟩
  obtain ⟨written, hholds⟩ := hkeeps.saved i hdata
  rw [read_of_holds hholds.through, interpret, Snapshot.decode_encode_option]
  rfl

end

def pair : Bool → String
  | true => "a"
  | false => "b"

/-- One file is saved, and then the other. -/
def pairUses : List (Σ i, Call String String (fileIn ⟨["d"]⟩ (pair i))) :=
  [⟨true, .save .compact (some [⟨"k", "v", 0, 1⟩])⟩, ⟨false, .save .indented none⟩]

theorem compatible_pair : ∀ i j, i ≠ j → Compatible (pair i) (pair j) := by
  have hvalid : ∀ i, FileName (pair i) := by
    intro i
    cases i <;> exact ⟨by decide, by decide, by decide⟩
  intro i j hne
  exact ⟨hvalid i, hvalid j, by revert i j; decide, by revert i j; decide, by revert i j; decide⟩

theorem saved_pairUses : ((start {}).run pairUses : Shelf Bool String String).saved true =
    some (some [⟨"k", "v", 0, 1⟩]) := rfl

theorem run_separate_of_pair :
    ((start {}).run pairUses : Shelf Bool String String).saved true = some (some [⟨"k", "v", 0, 1⟩]) ∧
      ((start {}).run pairUses : Shelf Bool String String).Separate ⟨["d"]⟩ pair {} :=
  ⟨saved_pairUses, run_separate ⟨["d"]⟩ compatible_pair {} pairUses⟩

/-- A file with the name that another one is saved through, and a snapshot in it. -/
def besides : Tree where
  nodes := [(["d", "a.tmp"], .file (Snapshot.encode .compact (some [(⟨"k", "v", 0, 1⟩ : Entry String String)]))),
    (["d"], .directory)]

/-- Different names are not enough: saving one file makes the other disappear, and it is read as if it had never been
saved. -/
theorem save_takes_neighbour :
    FileName "a" ∧ FileName "a.tmp" ∧ "a" ≠ "a.tmp" ∧
      besides.lookup (fileIn ⟨["d"]⟩ "a").place = none ∧
      ((⟨fileIn ⟨["d"]⟩ "a.tmp", .compact⟩ : SnapshotFile).read besides).1 =
        .ok (some [(⟨"k", "v", 0, 1⟩ : Entry String String)]) ∧
      let after := ((⟨fileIn ⟨["d"]⟩ "a", .compact⟩ : SnapshotFile).save
        (none : Option (List (Entry String String))) besides).2
      after.lookup (fileIn ⟨["d"]⟩ "a.tmp").place = none ∧
        ((⟨fileIn ⟨["d"]⟩ "a.tmp", .compact⟩ : SnapshotFile).read after).1 =
          .ok (none : Option (List (Entry String String))) := by
  have hholds : (⟨fileIn ⟨["d"]⟩ "a.tmp", .compact⟩ : SnapshotFile).Holds besides
      (Snapshot.encode .compact (some [(⟨"k", "v", 0, 1⟩ : Entry String String)])) := by
    refine ⟨fun q hparent _ => ?_, ["d", "a.tmp"], ⟨⟨["d"], "a.tmp", rfl, by decide, rfl⟩, by nofun⟩, rfl⟩
    cases hparent
    rfl
  refine ⟨⟨by decide, by decide, by decide⟩, ⟨by decide, by decide, by decide⟩, by decide, rfl, ?_, rfl, rfl⟩
  rw [read_of_holds hholds, interpret, Snapshot.decode_encode]
  rfl

end Shelf

end SnapshotFile

end ExpiringCache
