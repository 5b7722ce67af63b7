import ExpiringCache.Proofs.FileSteps
import ExpiringCache.Proofs.SnapshotText
import ExpiringCache.Snapshot.File

/-!
A snapshot saved in a file, read back. Main statement: when saving has succeeded, reading gives what was
saved, in whichever layout the reader would write itself.
-/
namespace ExpiringCache
set_option autoImplicit false

open Files (FileM Path Tree Location)

/-! ## Steps one after another -/

namespace FileStep

theorem attempt_ok {step : FileStep} {t t' : Tree} (h : step.attempt t = (.ok (), t')) :
    step.run t = (.ok (), t') := by
  unfold attempt at h
  split at h
  · rename_i hrun
    cases h
    exact hrun
  · cases h

theorem attempt_of_run {step : FileStep} {t t' : Tree} (h : step.run t = (.ok (), t')) :
    step.attempt t = (.ok (), t') := by
  simp only [attempt, h]

theorem attemptAll_cons_ok {step : FileStep} {steps : List FileStep} {t t' : Tree}
    (h : attemptAll (step :: steps) t = (.ok (), t')) :
    ∃ t₁, step.run t = (.ok (), t₁) ∧ attemptAll steps t₁ = (.ok (), t') := by
  rw [attemptAll_cons] at h
  rcases hstep : step.attempt t with ⟨_ | ⟨⟨⟩⟩, t₁⟩
  · rw [hstep] at h
    cases h
  · rw [hstep] at h
    exact ⟨t₁, attempt_ok hstep, h⟩

theorem attemptAll_append_ok {first second : List FileStep} {t t' : Tree}
    (h : attemptAll (first ++ second) t = (.ok (), t')) :
    ∃ t₁, attemptAll first t = (.ok (), t₁) ∧ attemptAll second t₁ = (.ok (), t') := by
  induction first generalizing t with
  | nil => exact ⟨t, rfl, h⟩
  | cons step first ih =>
    obtain ⟨t₁, hstep, hrest⟩ := attemptAll_cons_ok h
    obtain ⟨t₂, hfirst, hsecond⟩ := ih hrest
    refine ⟨t₂, ?_, hsecond⟩
    rw [attemptAll_cons, attempt_of_run hstep]
    exact hfirst

end FileStep

/-! ## The file -/

namespace SnapshotFile

/-- The file is there with this content, and so is the directory that it is made in. -/
structure Holds (f : SnapshotFile) (t : Tree) (content : Bytes) : Prop where
  parent : ∀ p, f.path.parent = some p → p.isEmpty = false → t.isDirectory p = true
  file : ∃ place, t.Names f.path place ∧ t.lookup place = some (.file content)

theorem ensureSteps_of_parent {f : SnapshotFile} {p : Path} (hparent : f.path.parent = some p)
    (hfull : p.isEmpty = false) : f.ensureSteps = [.makeDirs p, .touch f.path] := by
  have hkept : f.path.parent.filter (fun p => !p.isEmpty) = some p := by
    rw [hparent, Option.filter_some_pos (by simp [hfull])]
  rw [ensureSteps, hkept]
  rfl

theorem ensureSteps_of_none {f : SnapshotFile}
    (h : ∀ p, f.path.parent = some p → p.isEmpty = true) : f.ensureSteps = [.touch f.path] := by
  have hnone : f.path.parent.filter (fun p => !p.isEmpty) = none := by
    cases hparent : f.path.parent with
    | none => rfl
    | some p => rw [Option.filter_some_neg (by simp [h p hparent])]
  rw [ensureSteps, hnone]
  rfl

theorem ensure_of_holds {f : SnapshotFile} {t : Tree} {content : Bytes} (h : f.Holds t content) :
    f.ensure t = (.ok (), t) := by
  obtain ⟨place, hnames, hfile⟩ := h.file
  have hrun : (FileStep.touch f.path).run t = (.ok (), t) := FileM.touch_of_file hnames hfile
  have htouch : FileStep.attemptAll [.touch f.path] t = (.ok (), t) := by
    rw [FileStep.attemptAll_cons, FileStep.attempt_of_run hrun]
    rfl
  unfold ensure
  by_cases hparent : ∃ p, f.path.parent = some p ∧ p.isEmpty = false
  · obtain ⟨p, hp, hfull⟩ := hparent
    have hdirs : (FileStep.makeDirs p).run t = (.ok (), t) :=
      FileM.makeDirs_of_isDirectory (h.parent p hp hfull)
    rw [ensureSteps_of_parent hp hfull, FileStep.attemptAll_cons, FileStep.attempt_of_run hdirs]
    exact htouch
  · have hnone : ∀ p, f.path.parent = some p → p.isEmpty = true := fun p hp =>
      Bool.not_eq_false _ |>.mp fun hfull => hparent ⟨p, hp, hfull⟩
    rw [ensureSteps_of_none hnone]
    exact htouch

theorem holds_of_touch {f : SnapshotFile} {t t' : Tree}
    (hparent : ∀ p, f.path.parent = some p → p.isEmpty = false → t.isDirectory p = true)
    (h : FileStep.attemptAll [.touch f.path] t = (.ok (), t')) : ∃ content, f.Holds t' content := by
  obtain ⟨t₁, htouch, hrest⟩ := FileStep.attemptAll_cons_ok h
  cases hrest
  obtain ⟨place, hnames, ⟨content, hfile, rfl⟩ | ⟨hnone, rfl⟩⟩ := FileM.touch_ok htouch
  · exact ⟨content, hparent, place, hnames, hfile⟩
  · have hplace := hnames.ne_root
    have hkeeps : Tree.KeepsDirectories t (t.set place (.file [])) :=
      Tree.keepsDirectories_set hplace hnames.free _
    have hfile : (t.set place (.file [])).lookup place = some (.file []) := by
      rw [Tree.lookup_set t hplace, if_pos rfl]
    refine ⟨[], fun p hp hfull => Tree.isDirectory_mono hkeeps (hparent p hp hfull), place, ?_, hfile⟩
    exact hnames.mono hkeeps (by simp [hfile])

/-- Where making the file succeeds, it is there afterwards. -/
theorem holds_of_ensure {f : SnapshotFile} {t t' : Tree} (h : f.ensure t = (.ok (), t')) :
    ∃ content, f.Holds t' content := by
  unfold ensure at h
  by_cases hparent : ∃ p, f.path.parent = some p ∧ p.isEmpty = false
  · obtain ⟨p, hp, hfull⟩ := hparent
    rw [ensureSteps_of_parent hp hfull] at h
    obtain ⟨t₁, hdirs, hrest⟩ := FileStep.attemptAll_cons_ok h
    have hthere : t₁.isDirectory p = true := (FileM.made_makeDirs hdirs).there rfl hfull
    refine holds_of_touch (fun q hq _ => ?_) hrest
    rw [hp] at hq
    cases hq
    exact hthere
  · have hnone : ∀ p, f.path.parent = some p → p.isEmpty = true := fun p hp =>
      Bool.not_eq_false _ |>.mp fun hfull => hparent ⟨p, hp, hfull⟩
    rw [ensureSteps_of_none hnone] at h
    exact holds_of_touch (fun p hp hfull => by simp [hnone p hp] at hfull) h

/-- Writing beside the file and moving that to it gives it the new content. -/
theorem holds_of_replace {f : SnapshotFile} {t t' : Tree} {old content : Bytes} (h : f.Holds t old)
    (hsteps : FileStep.attemptAll [.write f.temporary content, .rename f.temporary f.path] t =
      (.ok (), t')) : f.Holds t' content := by
  obtain ⟨t₁, hwrite, hrest⟩ := FileStep.attemptAll_cons_ok hsteps
  obtain ⟨t₂, hrename, hend⟩ := FileStep.attemptAll_cons_ok hrest
  cases hend
  obtain ⟨beside, hbeside, rfl⟩ := FileM.write_ok hwrite
  have hwritten : Tree.KeepsDirectories t (t.set beside (.file content)) :=
    Tree.keepsDirectories_set hbeside.ne_root hbeside.free _
  have hcontent : (t.set beside (.file content)).lookup beside = some (.file content) := by
    rw [Tree.lookup_set t hbeside.ne_root, if_pos rfl]
  have hsource : (t.set beside (.file content)).Names f.temporary beside :=
    hbeside.mono hwritten (by simp [hcontent])
  obtain ⟨place, hplace, rfl⟩ := FileM.rename_ok hsource hcontent hrename
  generalize t.set beside (.file content) = t₁ at *
  have herased : Tree.KeepsDirectories t₁ (t₁.erase beside) :=
    Tree.keepsDirectories_erase hbeside.ne_root hsource.free
  have hfree : (t₁.erase beside).lookup place ≠ some .directory := by
    rw [Tree.lookup_erase t₁ hbeside.ne_root]
    split
    · simp
    · exact hplace.free
  have hmoved : Tree.KeepsDirectories t ((t₁.erase beside).set place (.file content)) :=
    (hwritten.trans herased).trans (Tree.keepsDirectories_set hplace.ne_root hfree _)
  have hfile : ((t₁.erase beside).set place (.file content)).lookup place = some (.file content) := by
    rw [Tree.lookup_set _ hplace.ne_root, if_pos rfl]
  refine ⟨fun p hp hfull => Tree.isDirectory_mono hmoved (h.parent p hp hfull), place, ?_, hfile⟩
  exact hplace.mono (herased.trans (Tree.keepsDirectories_set hplace.ne_root hfree _)) (by simp [hfile])

section
variable {K V : Type} [Scalar K] [Scalar V]

/-- Reading gives what the file holds, and changes nothing. -/
theorem read_of_holds {f : SnapshotFile} {t : Tree} {content : Bytes} (h : f.Holds t content) :
    (f.read t : Except SnapshotError (Option (List (Entry K V))) × Tree) =
      (interpret content, t) := by
  obtain ⟨place, hnames, hfile⟩ := h.file
  simp only [read, ensure_of_holds h, FileM.read_of_file hnames hfile]

/-- Where saving succeeds, the file holds the text of what was saved. -/
theorem holds_of_save {f : SnapshotFile} {entries : Option (List (Entry K V))} {t t' : Tree}
    (h : f.save entries t = (.ok (), t')) : f.Holds t' (Snapshot.encode f.layout entries) := by
  obtain ⟨t₁, hensure, hreplace⟩ := FileStep.attemptAll_append_ok h
  obtain ⟨old, hold⟩ := holds_of_ensure hensure
  exact holds_of_replace hold hreplace

/-- What was saved is read, by a reader of any layout. -/
theorem read_of_save [LawfulScalar K] [LawfulScalar V] {f : SnapshotFile} {entries : List (Entry K V)}
    {t t' : Tree} (h : f.save (some entries) t = (.ok (), t')) (layout : Snapshot.Layout) :
    ({ f with layout } : SnapshotFile).read t' = (.ok (some entries), t') := by
  obtain ⟨hparent, hfile⟩ := holds_of_save h
  have hholds : ({ f with layout } : SnapshotFile).Holds t' (Snapshot.encode f.layout (some entries)) :=
    ⟨hparent, hfile⟩
  rw [read_of_holds hholds, interpret, Snapshot.decode_encode]
  rfl

end

end SnapshotFile

end ExpiringCache
