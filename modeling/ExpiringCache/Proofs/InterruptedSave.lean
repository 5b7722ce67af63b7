import ExpiringCache.Proofs.Places
import ExpiringCache.Proofs.SavedFile

/-!
Saving is all or nothing for the file that it saves to. Main statement: a save that is refused, or that
stops before its last step, leaves the bytes of the target as they were, and whoever reads afterwards finds
those or, once the last step is taken, the whole new snapshot. Nothing left beside the target by an earlier
save comes into it. Where nothing stood, an empty file may be left, and a directory if the path goes up again.
-/
namespace ExpiringCache
set_option autoImplicit false

open Files (FileM Path Tree Location Node Fault)

/-! ## Steps that are not finished -/

namespace FileM

theorem openFile_unchanged (p : Path) (t : Tree) : (FileM.openFile p t).2 = t := by
  simp only [FileM.openFile, FileM.bind_apply, FileM.get_apply]
  rcases t.locate p with f | ⟨_ | ⟨here, name, slash⟩⟩
  · rfl
  · rfl
  · simp only
    split
    · rfl
    · split
      · rfl
      · rcases t.lookup (here ++ [name]) with _ | _ | _ <;> rfl

theorem read_unchanged (p : Path) (t : Tree) : (FileM.read p t).2 = t := by
  simp only [FileM.read, FileM.bind_apply, FileM.get_apply]
  rcases t.locate p with f | ⟨_ | ⟨here, name, slash⟩⟩
  · rfl
  · rfl
  · simp only
    split
    · rfl
    · rcases t.lookup (here ++ [name]) with _ | _ | content
      · rfl
      · rfl
      · cases slash <;> rfl

end FileM

namespace FileStep

/-- What a step may leave when it does not come to its end: making directories, some of them, and writing, a
file that has the beginning of the content. Opening a file and renaming are done at once or not at all. -/
inductive Leaves : FileStep → Tree → Tree → Prop
  | directories {p : Path} {t t' : Tree} :
      t.AddsDirectories p.depth t' → Leaves (.makeDirs p) t t'
  | part {p : Path} {content part : Bytes} {place : Location} {t : Tree} :
      t.Names p place → part <+: content → Leaves (.write p content) t (t.set place (.file part))

/-- The steps are taken up to some point before the end, or into the middle of one of them. -/
inductive Breaks : List FileStep → Tree → Tree → Prop
  | before {step : FileStep} {steps : List FileStep} {t : Tree} : Breaks (step :: steps) t t
  | during {step : FileStep} {steps : List FileStep} {t t' : Tree} :
      step.Leaves t t' → Breaks (step :: steps) t t'
  | after {step : FileStep} {steps : List FileStep} {t t₁ t' : Tree} :
      step.run t = (.ok (), t₁) → Breaks steps t₁ t' → Breaks (step :: steps) t t'

/-- A refused step has not been taken, or in part. -/
theorem leaves_of_refused {step : FileStep} {t t' : Tree} {fault : Fault}
    (h : step.run t = (.error fault, t')) : t' = t ∨ step.Leaves t t' := by
  cases step with
  | makeDirs p => exact .inr (.directories (FileM.adds_makeDirs h))
  | touch p =>
    left
    simp only [run, FileM.touch, FileM.bind_apply] at h
    rcases hopen : FileM.openFile p t with ⟨f | ⟨place, content⟩, t₁⟩
    · rw [hopen] at h
      cases h
      simpa [hopen] using FileM.openFile_unchanged p t
    · rw [hopen] at h
      simp only at h
      split at h <;> cases h
  | write p content =>
    left
    simp only [run, FileM.write, FileM.bind_apply] at h
    rcases hopen : FileM.openFile p t with ⟨f | ⟨place, old⟩, t₁⟩
    · rw [hopen] at h
      cases h
      simpa [hopen] using FileM.openFile_unchanged p t
    · rw [hopen] at h
      cases h
  | rename source target =>
    left
    simp only [run, FileM.rename, FileM.bind_apply] at h
    have hread := FileM.read_unchanged source t
    rcases hcontent : FileM.read source t with ⟨f | content, t₁⟩
    · rw [hcontent] at h hread
      cases h
      exact hread
    rw [hcontent] at h hread
    subst hread
    have hsource := FileM.openFile_unchanged source t₁
    rcases hold : FileM.openFile source t₁ with ⟨f | ⟨old, _⟩, t₂⟩
    · simp only [hold] at h hsource
      cases h
      exact hsource
    simp only [hold] at h hsource
    subst hsource
    have htarget := FileM.openFile_unchanged target t₂
    rcases hnew : FileM.openFile target t₂ with ⟨f | ⟨new, _⟩, t₃⟩
    · simp only [hnew] at h htarget
      cases h
      exact htarget
    · simp only [hnew] at h
      cases h

theorem attemptAll_append (first second : List FileStep) (t : Tree) :
    attemptAll (first ++ second) t =
      match attemptAll first t with
      | (.ok (), t) => attemptAll second t
      | (.error e, t) => (.error e, t) := by
  induction first generalizing t with
  | nil => rfl
  | cons step first ih =>
    rw [List.cons_append, attemptAll_cons, attemptAll_cons]
    rcases step.attempt t with ⟨_ | ⟨⟨⟩⟩, t₁⟩
    · rfl
    · exact ih t₁

/-- A refusal is one way not to come to the end. -/
theorem breaks_of_refused {steps : List FileStep} {t t' : Tree} {e : SnapshotError}
    (h : attemptAll steps t = (.error e, t')) : Breaks steps t t' := by
  induction steps generalizing t with
  | nil => cases h
  | cons step steps ih =>
    rw [attemptAll_cons] at h
    rcases hrun : step.run t with ⟨fault | ⟨⟨⟩⟩, t₁⟩
    · simp only [attempt, hrun] at h
      cases h
      rcases leaves_of_refused hrun with rfl | hleaves
      · exact .before
      · exact .during hleaves
    · rw [attempt_of_run hrun] at h
      exact .after hrun (ih h)

theorem breaks_append {first second : List FileStep} {t t' : Tree}
    (h : Breaks (first ++ second) t t') :
    Breaks first t t' ∨ ∃ t₁, attemptAll first t = (.ok (), t₁) ∧ Breaks second t₁ t' := by
  induction first generalizing t with
  | nil => exact .inr ⟨t, rfl, h⟩
  | cons step first ih =>
    cases h with
    | before => exact .inl .before
    | during hleaves => exact .inl (.during hleaves)
    | after hrun hrest =>
      rcases ih hrest with hbreaks | ⟨t₂, hfirst, hsecond⟩
      · exact .inl (.after hrun hbreaks)
      · refine .inr ⟨t₂, ?_, hsecond⟩
        rw [attemptAll_cons, attempt_of_run hrun]
        exact hfirst

end FileStep

namespace SnapshotFile

/-! ## The target -/

/-- The bytes stored at the target, none where there is no file. -/
def stored (f : SnapshotFile) (t : Tree) : Bytes := (FileM.found t f.path.place).getD []

/-- What stood at the target stands there still, and is read if it was. Where nothing stood, there is no file,
or an empty one. Only where the path goes up again can a directory have come there, since then the
directories made for the target may be one with it. -/
structure Spares (f : SnapshotFile) (t t' : Tree) : Prop where
  kept : ∀ node, t.lookup f.path.place = some node → t'.lookup f.path.place = some node
  held : ∀ content, f.Holds t content → f.Holds t' content
  absent : t.lookup f.path.place = none →
    t'.lookup f.path.place = none ∨ t'.lookup f.path.place = some (.file []) ∨
      t'.lookup f.path.place = some .directory ∧ ".." ∈ f.path.pieces

namespace Spares

theorem refl (f : SnapshotFile) (t : Tree) : f.Spares t t :=
  ⟨fun _ h => h, fun _ h => h, fun h => .inl h⟩

theorem trans {f : SnapshotFile} {t₁ t₂ t₃ : Tree} (h : f.Spares t₁ t₂) (h' : f.Spares t₂ t₃) :
    f.Spares t₁ t₃ := by
  refine ⟨fun node hnode => h'.kept node (h.kept node hnode),
    fun content hholds => h'.held content (h.held content hholds), fun hnone => ?_⟩
  rcases h.absent hnone with hnone' | hempty | ⟨hdir, hup⟩
  · exact h'.absent hnone'
  · exact .inr (.inl (h'.kept _ hempty))
  · exact .inr (.inr ⟨h'.kept _ hdir, hup⟩)

theorem stored_eq {f : SnapshotFile} {t t' : Tree} (h : f.Spares t t') : f.stored t' = f.stored t := by
  unfold stored FileM.found
  cases hnode : t.lookup f.path.place with
  | some node => rw [h.kept node hnode]
  | none => rcases h.absent hnode with h | h | ⟨h, -⟩ <;> simp [h]

end Spares

theorem Holds.lookup {f : SnapshotFile} {t : Tree} {content : Bytes} (h : f.Holds t content) :
    t.lookup f.path.place = some (.file content) := by
  obtain ⟨place, hnames, hfile⟩ := h.file
  rw [← hnames.place_eq]
  exact hfile

theorem Holds.stored_eq {f : SnapshotFile} {t : Tree} {content : Bytes} (h : f.Holds t content) :
    f.stored t = content := by
  rw [stored, FileM.found, h.lookup]
  rfl

/-- The file is there as long as no directory goes and its place keeps its content. -/
theorem Holds.mono {f : SnapshotFile} {t t' : Tree} {content : Bytes} (h : f.Holds t content)
    (hkeeps : t.KeepsDirectories t') (hfile : t'.lookup f.path.place = some (.file content)) :
    f.Holds t' content := by
  obtain ⟨place, hnames, -⟩ := h.file
  have hplace := hnames.place_eq
  subst hplace
  exact ⟨fun p hp hfull => Tree.isDirectory_mono hkeeps (h.parent p hp hfull), f.path.place,
    hnames.mono hkeeps (by simp [hfile]), hfile⟩

theorem spares_of_holds {f : SnapshotFile} {t t' : Tree} {content : Bytes} (h : f.Holds t content)
    (h' : f.Holds t' content) : f.Spares t t' := by
  refine ⟨fun node hnode => ?_, fun other hother => ?_, fun hnone => ?_⟩
  · rw [h.lookup] at hnode
    rw [h'.lookup, hnode]
  · have hsame : other = content := hother.stored_eq.symm.trans h.stored_eq
    rw [hsame]
    exact h'
  · rw [h.lookup] at hnone
    cases hnone

/-! ## Making the file -/

/-- The directories that are made for the target stand above it. -/
theorem spares_of_adds {f : SnapshotFile} {p : Path} {t t' : Tree} (hparent : f.path.parent = some p)
    (h : t.AddsDirectories p.depth t') : f.Spares t t' := by
  refine ⟨fun node hnode => h.lookup hnode, fun content hholds => ?_, fun hnone => ?_⟩
  · exact hholds.mono (fun loc hloc => h.lookup hloc) (h.lookup hholds.lookup)
  · rcases h f.path.place with hsame | ⟨-, hdir, hdeep⟩
    · exact .inl (hsame.trans hnone)
    · refine .inr (.inr ⟨hdir, Classical.byContradiction fun hplain => ?_⟩)
      have hlength := Path.length_place hplain
      have habove := Path.depth_parent hparent
      have hroot : f.path.place = [] := List.eq_nil_of_length_eq_zero (by omega)
      simp [hroot, Tree.lookup] at hnone

theorem spares_of_touch {f : SnapshotFile} {t t' : Tree} (h : FileM.touch f.path t = (.ok (), t')) :
    f.Spares t t' := by
  obtain ⟨place, hnames, ⟨content, hfile, rfl⟩ | ⟨hnone, rfl⟩⟩ := FileM.touch_ok h
  · exact .refl f t'
  · have hplace := hnames.place_eq
    subst hplace
    refine ⟨fun node hnode => ?_, fun content hholds => ?_, fun _ => .inr (.inl ?_)⟩
    · rw [hnone] at hnode
      cases hnode
    · rw [hholds.lookup] at hnone
      cases hnone
    · rw [Tree.lookup_set t hnames.ne_root, if_pos rfl]

theorem mem_ensureSteps {f : SnapshotFile} {step : FileStep} (h : step ∈ f.ensureSteps) :
    (∃ p, f.path.parent = some p ∧ step = .makeDirs p) ∨ step = .touch f.path := by
  rw [ensureSteps, List.mem_append, List.mem_map] at h
  rcases h with ⟨p, hp, rfl⟩ | htouch
  · rw [Option.mem_toList, Option.filter_eq_some_iff] at hp
    exact .inl ⟨p, hp.1, rfl⟩
  · exact .inr (List.mem_singleton.mp htouch)

theorem spares_of_run {f : SnapshotFile} {step : FileStep} (hstep : step ∈ f.ensureSteps) {t t' : Tree}
    (h : step.run t = (.ok (), t')) : f.Spares t t' := by
  rcases mem_ensureSteps hstep with ⟨p, hparent, rfl⟩ | rfl
  · exact spares_of_adds hparent (FileM.adds_makeDirs h)
  · exact spares_of_touch h

theorem spares_of_leaves {f : SnapshotFile} {step : FileStep} (hstep : step ∈ f.ensureSteps)
    {t t' : Tree} (h : step.Leaves t t') : f.Spares t t' := by
  rcases mem_ensureSteps hstep with ⟨p, hparent, rfl⟩ | rfl
  · cases h with
    | directories hadds => exact spares_of_adds hparent hadds
  · cases h

theorem spares_of_attemptAll {f : SnapshotFile} {steps : List FileStep}
    (hsteps : ∀ step ∈ steps, step ∈ f.ensureSteps) {t t' : Tree}
    (h : FileStep.attemptAll steps t = (.ok (), t')) : f.Spares t t' := by
  induction steps generalizing t with
  | nil =>
    cases h
    exact .refl f _
  | cons step steps ih =>
    obtain ⟨t₁, hrun, hrest⟩ := FileStep.attemptAll_cons_ok h
    have hfirst := spares_of_run (hsteps step List.mem_cons_self) hrun
    exact hfirst.trans (ih (fun s hs => hsteps s (List.mem_cons_of_mem step hs)) hrest)

theorem spares_of_broken_ensure {f : SnapshotFile} {steps : List FileStep}
    (hsteps : ∀ step ∈ steps, step ∈ f.ensureSteps) {t t' : Tree}
    (h : FileStep.Breaks steps t t') : f.Spares t t' := by
  induction h with
  | before => exact .refl f _
  | during hleaves => exact spares_of_leaves (hsteps _ List.mem_cons_self) hleaves
  | after hrun _ ih =>
    have hfirst := spares_of_run (hsteps _ List.mem_cons_self) hrun
    exact hfirst.trans (ih fun s hs => hsteps s (List.mem_cons_of_mem _ hs))

theorem spares_of_ensure {f : SnapshotFile} {t t' : Tree} {r : Except SnapshotError Unit}
    (h : f.ensure t = (r, t')) : f.Spares t t' := by
  cases r with
  | ok _ => exact spares_of_attemptAll (fun _ hstep => hstep) h
  | error e => exact spares_of_broken_ensure (fun _ hstep => hstep) (FileStep.breaks_of_refused h)

/-- Once it has been made, the file holds what was stored before. -/
theorem holds_stored_of_ensure {f : SnapshotFile} {t t' : Tree} (h : f.ensure t = (.ok (), t')) :
    f.Holds t' (f.stored t) := by
  obtain ⟨content, hholds⟩ := holds_of_ensure h
  rw [← (spares_of_ensure h).stored_eq, hholds.stored_eq]
  exact hholds

/-! ## Replacing it -/

def replaceSteps (f : SnapshotFile) (content : Bytes) : List FileStep :=
  [.write f.temporary content, .rename f.temporary f.path]

theorem saveSteps_eq (f : SnapshotFile) (content : Bytes) :
    f.saveSteps content = f.ensureSteps ++ f.replaceSteps content := rfl

theorem temporary_ne {f : SnapshotFile} {t t' : Tree} {place beside : Location}
    (h : t.Names f.path place) (h' : t'.Names f.temporary beside) : beside ≠ place :=
  Tree.Names.ne_withName (by decide) (by decide) h h'

/-- The file goes on holding what it holds, whatever is written beside it. -/
theorem Holds.beside {f : SnapshotFile} {t : Tree} {old : Bytes} {beside : Location} (h : f.Holds t old)
    (hbeside : t.Names f.temporary beside) (content : Bytes) :
    f.Holds (t.set beside (.file content)) old := by
  obtain ⟨place, hnames, -⟩ := h.file
  have hplace := hnames.place_eq
  subst hplace
  refine h.mono (Tree.keepsDirectories_set hbeside.ne_root hbeside.free _) ?_
  rw [Tree.lookup_set t hbeside.ne_root, if_neg (temporary_ne hnames hbeside).symm, h.lookup]

theorem holds_of_write {f : SnapshotFile} {t t' : Tree} {old content : Bytes} (h : f.Holds t old)
    (hrun : (FileStep.write f.temporary content).run t = (.ok (), t')) : f.Holds t' old := by
  obtain ⟨beside, hbeside, rfl⟩ := FileM.write_ok hrun
  exact h.beside hbeside content

/-- Replacing the file does nothing to it before the last step. -/
theorem holds_of_broken_replace {f : SnapshotFile} {t t' : Tree} {old content : Bytes}
    (h : f.Holds t old) (hbreaks : FileStep.Breaks (f.replaceSteps content) t t') : f.Holds t' old := by
  cases hbreaks with
  | before => exact h
  | during hleaves =>
    cases hleaves with
    | part hbeside hpart => exact h.beside hbeside _
  | after hwrite hrest =>
    have hwritten := holds_of_write h hwrite
    cases hrest with
    | before => exact hwritten
    | during hleaves => cases hleaves
    | after hrename hnone => cases hnone

theorem spares_of_broken_save {f : SnapshotFile} {t t' : Tree} {content : Bytes}
    (h : FileStep.Breaks (f.saveSteps content) t t') : f.Spares t t' := by
  rw [saveSteps_eq] at h
  rcases FileStep.breaks_append h with hensure | ⟨t₁, hensure, hreplace⟩
  · exact spares_of_broken_ensure (fun _ hstep => hstep) hensure
  · have hholds := holds_stored_of_ensure hensure
    exact (spares_of_ensure hensure).trans
      (spares_of_holds hholds (holds_of_broken_replace hholds hreplace))

theorem temporary_gone {f : SnapshotFile} {t t' : Tree} {content : Bytes}
    (hsteps : FileStep.attemptAll (f.replaceSteps content) t = (.ok (), t')) :
    t'.lookup f.temporary.place = none := by
  obtain ⟨t₁, hwrite, hrest⟩ := FileStep.attemptAll_cons_ok hsteps
  obtain ⟨t₂, hrename, hend⟩ := FileStep.attemptAll_cons_ok hrest
  cases hend
  obtain ⟨beside, hbeside, rfl⟩ := FileM.write_ok hwrite
  have hcontent : (t.set beside (.file content)).lookup beside = some (.file content) := by
    rw [Tree.lookup_set t hbeside.ne_root, if_pos rfl]
  have hsource : (t.set beside (.file content)).Names f.temporary beside :=
    hbeside.mono (Tree.keepsDirectories_set hbeside.ne_root hbeside.free _) (by simp [hcontent])
  obtain ⟨place, hplace, rfl⟩ := FileM.rename_ok hsource hcontent hrename
  rw [← hbeside.place_eq, Tree.lookup_set _ hplace.ne_root, if_neg (temporary_ne hplace hbeside),
    Tree.lookup_erase _ hbeside.ne_root, if_pos rfl]

/-! ## Saving what may fail to be written as text -/

/-- Saving a snapshot whose text is made once the target has been opened, or cannot be made. -/
def store (f : SnapshotFile) (encoded : Except SnapshotError Bytes) (t : Tree) :
    Except SnapshotError Unit × Tree :=
  match f.ensure t with
  | (.error e, t) => (.error e, t)
  | (.ok (), t) =>
    match encoded with
    | .error e => (.error e, t)
    | .ok content => FileStep.attemptAll (f.replaceSteps content) t

theorem store_ok (f : SnapshotFile) (content : Bytes) (t : Tree) :
    f.store (.ok content) t = FileStep.attemptAll (f.saveSteps content) t := by
  rw [saveSteps_eq, FileStep.attemptAll_append]
  unfold store ensure
  rcases FileStep.attemptAll f.ensureSteps t with ⟨_ | ⟨⟨⟩⟩, t₁⟩ <;> rfl

theorem spares_of_refused {f : SnapshotFile} {encoded : Except SnapshotError Bytes} {t t' : Tree}
    {e : SnapshotError} (h : f.store encoded t = (.error e, t')) : f.Spares t t' := by
  cases encoded with
  | ok content =>
    rw [store_ok] at h
    exact spares_of_broken_save (FileStep.breaks_of_refused h)
  | error e' =>
    unfold store at h
    rcases hensure : f.ensure t with ⟨_ | ⟨⟨⟩⟩, t₁⟩ <;> rw [hensure] at h <;> cases h <;>
      exact spares_of_ensure hensure

theorem holds_of_store {f : SnapshotFile} {content : Bytes} {t t' : Tree}
    (h : f.store (.ok content) t = (.ok (), t')) :
    f.Holds t' content ∧ t'.lookup f.temporary.place = none := by
  rw [store_ok, saveSteps_eq] at h
  obtain ⟨t₁, hensure, hreplace⟩ := FileStep.attemptAll_append_ok h
  have hholds := holds_stored_of_ensure hensure
  exact ⟨holds_of_replace hholds hreplace, temporary_gone hreplace⟩

section
variable {K V : Type} [Scalar K] [Scalar V]

theorem save_eq_store (f : SnapshotFile) (entries : Option (List (Entry K V))) (t : Tree) :
    f.save entries t = f.store (.ok (Snapshot.encode f.layout entries)) t := by
  rw [store_ok]
  rfl

/-! ## Reading -/

/-- A file that can be made is read. -/
theorem read_of_ensure {f : SnapshotFile} {t t' : Tree} (h : f.ensure t = (.ok (), t')) :
    (f.read t : Except SnapshotError (Option (List (Entry K V))) × Tree) =
      (interpret (f.stored t), t') := by
  obtain ⟨place, hnames, hfile⟩ := (holds_stored_of_ensure h).file
  simp only [read, h, FileM.read_of_file hnames hfile]

theorem read_of_refused {f : SnapshotFile} {t t' : Tree} {e : SnapshotError}
    (h : f.ensure t = (.error e, t')) :
    (f.read t : Except SnapshotError (Option (List (Entry K V))) × Tree) = (.error e, t') := by
  simp only [read, h]

theorem file_of_refused {steps : List FileStep} {t t' : Tree} {e : SnapshotError}
    (h : FileStep.attemptAll steps t = (.error e, t')) : ∃ path fault, e = .file path fault := by
  induction steps generalizing t with
  | nil => cases h
  | cons step steps ih =>
    rw [FileStep.attemptAll_cons] at h
    rcases hrun : step.run t with ⟨fault | ⟨⟨⟩⟩, t₁⟩
    · simp only [FileStep.attempt, hrun] at h
      cases h
      exact ⟨_, _, rfl⟩
    · rw [FileStep.attempt_of_run hrun] at h
      exact ih h

/-- Reading gives what is stored, unless the file system refuses. -/
theorem read_stored (f : SnapshotFile) (t : Tree) :
    (f.read t).1 = (interpret (f.stored t) : Except SnapshotError (Option (List (Entry K V)))) ∨
      ∃ path fault,
        (f.read t).1 = (.error (.file path fault) : Except SnapshotError (Option (List (Entry K V)))) := by
  rcases hensure : f.ensure t with ⟨e | ⟨⟨⟩⟩, t'⟩
  · obtain ⟨path, fault, rfl⟩ := file_of_refused hensure
    exact .inr ⟨path, fault, by rw [read_of_refused hensure]⟩
  · exact .inl (by rw [read_of_ensure hensure])

theorem spares_of_read {f : SnapshotFile} {t t' : Tree}
    {r : Except SnapshotError (Option (List (Entry K V)))} (h : f.read t = (r, t')) : f.Spares t t' := by
  rcases hensure : f.ensure t with ⟨e | ⟨⟨⟩⟩, t₁⟩
  · rw [read_of_refused hensure] at h
    cases h
    exact spares_of_ensure hensure
  · rw [read_of_ensure hensure] at h
    cases h
    exact spares_of_ensure hensure

/-- Making the directories beforehand makes no difference. -/
theorem read_of_directories {f : SnapshotFile} {p : Path} {t t₁ : Tree}
    (hparent : f.path.parent = some p) (hfull : p.isEmpty = false)
    (h : (FileStep.makeDirs p).run t = (.ok (), t₁)) :
    (f.read t₁ : Except SnapshotError (Option (List (Entry K V))) × Tree) = f.read t := by
  have hthere : (FileStep.makeDirs p).run t₁ = (.ok (), t₁) :=
    FileM.makeDirs_of_isDirectory ((FileM.made_makeDirs h).there rfl hfull)
  have hsame : f.ensure t₁ = f.ensure t := by
    simp only [ensure, ensureSteps_of_parent hparent hfull, FileStep.attemptAll_cons,
      FileStep.attempt_of_run h, FileStep.attempt_of_run hthere]
  simp only [read, hsame]

/-- Once the target has been opened, it is read as before until the last step. -/
theorem read_of_broken_replace {f : SnapshotFile} {t t₁ t' : Tree} {content : Bytes}
    (hensure : f.ensure t = (.ok (), t₁)) (h : FileStep.Breaks (f.replaceSteps content) t₁ t') :
    (f.read t' : Except SnapshotError (Option (List (Entry K V))) × Tree) =
      (interpret (f.stored t), t') :=
  read_of_holds (holds_of_broken_replace (holds_stored_of_ensure hensure) h)

theorem read_of_store {f : SnapshotFile} {content : Bytes} {t t' : Tree}
    (h : f.store (.ok content) t = (.ok (), t')) :
    (f.read t' : Except SnapshotError (Option (List (Entry K V))) × Tree) = (interpret content, t') :=
  read_of_holds (holds_of_store h).1

theorem read_of_ensured {f : SnapshotFile} {t t' : Tree} (h : f.ensure t = (.ok (), t')) :
    (f.read t' : Except SnapshotError (Option (List (Entry K V))) × Tree) = f.read t := by
  rw [read_of_holds (holds_stored_of_ensure h), read_of_ensure h]

theorem read_of_stopped_early {f : SnapshotFile} {done : List FileStep} {t t' : Tree}
    (hdone : done <+: f.ensureSteps) (h : FileStep.attemptAll done t = (.ok (), t')) :
    (f.read t' : Except SnapshotError (Option (List (Entry K V))) × Tree) = f.read t := by
  rcases List.prefix_concat_iff.mp hdone with rfl | hdirs
  · exact read_of_ensured h
  cases hparent : f.path.parent.filter fun p => !p.isEmpty with
  | none =>
    have hnil : done = [] := by simpa [hparent] using hdirs
    cases hnil
    cases h
    rfl
  | some p =>
    obtain ⟨hp, hfull⟩ := Option.filter_eq_some_iff.mp hparent
    have hmakes : done <+: [.makeDirs p] := by simpa [hparent] using hdirs
    rcases List.prefix_cons_iff.mp hmakes with rfl | ⟨rest, rfl, hrest⟩
    · cases h
      rfl
    · have hnil : rest = [] := List.prefix_nil.mp hrest
      cases hnil
      obtain ⟨t₁, hrun, hend⟩ := FileStep.attemptAll_cons_ok h
      cases hend
      exact read_of_directories hp (by simpa using hfull) hrun

/-- After some of the steps of a save, and no others, the target is read as before or as saved. -/
theorem read_of_stopped {f : SnapshotFile} {content : Bytes} {done : List FileStep} {t t' : Tree}
    (hdone : done <+: f.saveSteps content) (h : FileStep.attemptAll done t = (.ok (), t')) :
    ((f.read t').1 : Except SnapshotError (Option (List (Entry K V)))) = (f.read t).1 ∨
      ((f.read t').1 : Except SnapshotError (Option (List (Entry K V)))) = interpret content := by
  have hsteps : f.saveSteps content =
      f.ensureSteps ++ [.write f.temporary content] ++ [.rename f.temporary f.path] := by
    simp [saveSteps]
  rw [hsteps] at hdone
  rcases List.prefix_concat_iff.mp hdone with rfl | hdone
  · right
    rw [← hsteps, ← store_ok] at h
    rw [read_of_store h]
  left
  rcases List.prefix_concat_iff.mp hdone with rfl | hdone
  · obtain ⟨t₁, hensure, hwrite⟩ := FileStep.attemptAll_append_ok h
    obtain ⟨t₂, hrun, hend⟩ := FileStep.attemptAll_cons_ok hwrite
    cases hend
    rw [read_of_holds (holds_of_write (holds_stored_of_ensure hensure) hrun), read_of_ensure hensure]
  · rw [read_of_stopped_early hdone h]

/-! ## All or nothing -/

variable (K V) in
/-- The tree is one that reading this file and saving to it may lead to, and the content is that of the last
save that came to its end, or what was stored at first. -/
inductive Used (f : SnapshotFile) (t₀ : Tree) : Bytes → Tree → Prop
  | start : Used f t₀ (f.stored t₀) t₀
  | read {content : Bytes} {t t' : Tree} {r : Except SnapshotError (Option (List (Entry K V)))} :
      Used f t₀ content t → f.read t = (r, t') → Used f t₀ content t'
  | refused {content : Bytes} {encoded : Except SnapshotError Bytes} {e : SnapshotError} {t t' : Tree} :
      Used f t₀ content t → f.store encoded t = (.error e, t') → Used f t₀ content t'
  | broken {content new : Bytes} {t t' : Tree} :
      Used f t₀ content t → FileStep.Breaks (f.saveSteps new) t t' → Used f t₀ content t'
  | saved {content new : Bytes} {t t' : Tree} :
      Used f t₀ content t → f.store (.ok new) t = (.ok (), t') → Used f t₀ new t'

theorem Used.stored_eq {f : SnapshotFile} {t₀ t : Tree} {content : Bytes}
    (h : Used K V f t₀ content t) : f.stored t = content := by
  induction h with
  | start => rfl
  | read _ hread ih => exact (spares_of_read hread).stored_eq.trans ih
  | refused _ hrefused ih => exact (spares_of_refused hrefused).stored_eq.trans ih
  | broken _ hbreaks ih => exact (spares_of_broken_save hbreaks).stored_eq.trans ih
  | saved _ hsaved _ => exact (holds_of_store hsaved).1.stored_eq

/-- A file that is there goes on being there. -/
theorem Used.holds {f : SnapshotFile} {t₀ t : Tree} {old content : Bytes} (hold : f.Holds t₀ old)
    (h : Used K V f t₀ content t) : f.Holds t content := by
  induction h with
  | start =>
    rw [hold.stored_eq]
    exact hold
  | read _ hread ih => exact (spares_of_read hread).held _ ih
  | refused _ hrefused ih => exact (spares_of_refused hrefused).held _ ih
  | broken _ hbreaks ih => exact (spares_of_broken_save hbreaks).held _ ih
  | saved _ hsaved _ => exact (holds_of_store hsaved).1

variable (K V) in
/-- What holds of saving to this file in this tree, however it goes. -/
structure AllOrNothing (f : SnapshotFile) (t : Tree) : Prop where
  saves : ∀ entries : Option (List (Entry K V)),
    f.save entries t = f.store (.ok (Snapshot.encode f.layout entries)) t
  /-- refused at any step, the making of the text included -/
  refused : ∀ encoded e t', f.store encoded t = (.error e, t') → f.Spares t t'
  /-- stopped before the last step, between two steps or within one -/
  broken : ∀ content t', FileStep.Breaks (f.saveSteps content) t t' → f.Spares t t'
  /-- stopped after some of the steps, perhaps all -/
  stopped : ∀ content done t', done <+: f.saveSteps content →
    FileStep.attemptAll done t = (.ok (), t') →
      ((f.read t').1 : Except SnapshotError (Option (List (Entry K V)))) = (f.read t).1 ∨
        ((f.read t').1 : Except SnapshotError (Option (List (Entry K V)))) = interpret content
  /-- stopped once the target is open, maybe with a part written of the file beside it -/
  opened : ∀ content t₁ t', f.ensure t = (.ok (), t₁) →
    FileStep.Breaks (f.replaceSteps content) t₁ t' →
      (f.read t' : Except SnapshotError (Option (List (Entry K V))) × Tree) =
        (interpret (f.stored t), t')
  finished : ∀ content t', f.store (.ok content) t = (.ok (), t') →
    (f.read t' : Except SnapshotError (Option (List (Entry K V))) × Tree) = (interpret content, t') ∧
      t'.lookup f.temporary.place = none
  /-- read at any later time, after any number of saves -/
  later : ∀ content t', Used K V f t content t' →
    ((f.read t').1 : Except SnapshotError (Option (List (Entry K V)))) = interpret content ∨
      ∃ path fault, ((f.read t').1 : Except SnapshotError (Option (List (Entry K V)))) =
        .error (.file path fault)
  /-- so read for certain, if the file was there at first -/
  lasting : ∀ old content t', f.Holds t old → Used K V f t content t' →
    (f.read t' : Except SnapshotError (Option (List (Entry K V))) × Tree) = (interpret content, t')

variable (K V) in
theorem save_allOrNothing (f : SnapshotFile) (t : Tree) : f.AllOrNothing K V t where
  saves entries := f.save_eq_store entries t
  refused _ _ _ h := spares_of_refused h
  broken _ _ h := spares_of_broken_save h
  stopped _ _ _ hdone h := read_of_stopped hdone h
  opened _ _ _ hensure h := read_of_broken_replace hensure h
  finished _ _ h := ⟨read_of_store h, (holds_of_store h).2⟩
  later _ t' h := by
    rw [← h.stored_eq]
    exact f.read_stored t'
  lasting _ _ _ hold h := read_of_holds (h.holds hold)

end

/-- It is not so that a refused save leaves no file or an empty one wherever nothing stood. For `x/../x` the
directory `x/..` is made, and `x` with it, which is the target. -/
theorem save_makes_directory :
    ¬ ∀ (f : SnapshotFile) (entries : Option (List (Entry String String))) (t t' : Tree) (e : SnapshotError),
      f.save entries t = (.error e, t') → t.lookup f.path.place = none →
        t'.lookup f.path.place = none ∨ t'.lookup f.path.place = some (.file []) := by
  intro hspared
  have hsave : (⟨.ofText "x/../x", .compact⟩ : SnapshotFile).save (none : Option (List (Entry String String))) {} =
      (.error (.file "x/../x" .isDirectory), { nodes := [(["x"], .directory)] }) := rfl
  rcases hspared _ _ _ _ _ hsave rfl with habsent | hempty
  · cases habsent
  · cases hempty

end SnapshotFile

end ExpiringCache
