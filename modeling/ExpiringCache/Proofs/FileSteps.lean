import ExpiringCache.Files.Tree

/-!
What each step in a file system needs and does. A path leads to the same place for as long as no
directory goes, and of the steps that save a snapshot none takes a directory away.
-/
namespace ExpiringCache.Files
set_option autoImplicit false

namespace Tree

/-! ## Looking up -/

theorem lookup_filter (nodes : List (Location × Node)) (loc other : Location) :
    (nodes.filter fun n => n.1 ≠ loc).lookup other =
      if other = loc then none else nodes.lookup other := by
  induction nodes with
  | nil => simp
  | cons n nodes ih =>
    obtain ⟨place, node⟩ := n
    by_cases hplace : place = loc
    · rw [List.filter_cons_of_neg (by simp [hplace]), ih, hplace]
      by_cases hother : other = loc
      · rw [if_pos hother, if_pos hother]
      · rw [if_neg hother, if_neg hother, List.lookup_cons, beq_false_of_ne hother]
    · rw [List.filter_cons_of_pos (by simp [hplace]), List.lookup_cons, ih]
      by_cases hother : other = loc
      · have hne : other ≠ place := fun h => hplace (h.symm.trans hother)
        rw [beq_false_of_ne hne, if_pos hother, if_pos hother]
      · rw [if_neg hother, if_neg hother, List.lookup_cons]

theorem lookup_set (t : Tree) {loc : Location} (hloc : loc ≠ []) (node : Node) (other : Location) :
    (t.set loc node).lookup other = if other = loc then some node else t.lookup other := by
  unfold lookup set
  by_cases hroot : other = []
  · subst hroot
    rw [if_neg (Ne.symm hloc)]
    rfl
  · have hempty : other.isEmpty = false := by simp [hroot]
    simp only [hempty, Bool.false_eq_true, if_false]
    by_cases hother : other = loc
    · rw [if_pos hother, hother, List.lookup_cons_self]
    · rw [if_neg hother, List.lookup_cons, beq_false_of_ne hother, lookup_filter, if_neg hother]

theorem lookup_erase (t : Tree) {loc : Location} (hloc : loc ≠ []) (other : Location) :
    (t.erase loc).lookup other = if other = loc then none else t.lookup other := by
  unfold lookup erase
  by_cases hroot : other = []
  · subst hroot
    rw [if_neg (Ne.symm hloc)]
    rfl
  · have hempty : other.isEmpty = false := by simp [hroot]
    simp only [hempty, Bool.false_eq_true, if_false]
    exact lookup_filter t.nodes loc other

/-! ## Directories that stay -/

def KeepsDirectories (t t' : Tree) : Prop :=
  ∀ loc, t.lookup loc = some .directory → t'.lookup loc = some .directory

theorem KeepsDirectories.refl (t : Tree) : KeepsDirectories t t := fun _ h => h

theorem KeepsDirectories.trans {t₁ t₂ t₃ : Tree} (h : KeepsDirectories t₁ t₂)
    (h' : KeepsDirectories t₂ t₃) : KeepsDirectories t₁ t₃ := fun loc hloc => h' loc (h loc hloc)

/-- A node may be put where no directory stands. -/
theorem keepsDirectories_set {t : Tree} {loc : Location} (hloc : loc ≠ [])
    (hfree : t.lookup loc ≠ some .directory) (node : Node) : KeepsDirectories t (t.set loc node) := by
  intro other hother
  have hne : other ≠ loc := fun h => hfree (h ▸ hother)
  rw [lookup_set t hloc, if_neg hne]
  exact hother

theorem keepsDirectories_erase {t : Tree} {loc : Location} (hloc : loc ≠ [])
    (hfree : t.lookup loc ≠ some .directory) : KeepsDirectories t (t.erase loc) := by
  intro other hother
  have hne : other ≠ loc := fun h => hfree (h ▸ hother)
  rw [lookup_erase t hloc, if_neg hne]
  exact hother

theorem walk_mono {t t' : Tree} (h : KeepsDirectories t t') {pieces : List String} {here there : Location}
    (hwalk : t.walk here pieces = .ok there) : t'.walk here pieces = .ok there := by
  induction pieces generalizing here with
  | nil => exact hwalk
  | cons piece rest ih =>
    unfold walk at hwalk ⊢
    split
    · rename_i hidle
      rw [if_pos hidle] at hwalk
      exact ih hwalk
    · rename_i hidle
      rw [if_neg hidle] at hwalk
      split
      · rename_i hup
        rw [if_pos hup] at hwalk
        exact ih hwalk
      · rename_i hup
        rw [if_neg hup] at hwalk
        split
        · rename_i hlong
          rw [if_pos hlong] at hwalk
          cases hwalk
        · rename_i hlong
          rw [if_neg hlong] at hwalk
          cases hlookup : t.lookup (here ++ [piece]) with
          | none =>
            rw [hlookup] at hwalk
            cases hwalk
          | some node =>
            cases node with
            | file content =>
              rw [hlookup] at hwalk
              cases hwalk
            | directory =>
              rw [hlookup] at hwalk
              rw [h _ hlookup]
              exact ih hwalk

theorem map_ok {α β : Type} {x y : Except Fault α} {f : α → β} {b : β}
    (hxy : ∀ a, x = .ok a → y = .ok a) (h : x.map f = .ok b) : y.map f = .ok b := by
  cases x with
  | error e => cases h
  | ok a =>
    rw [hxy a rfl]
    exact h

/-- A path goes on leading where it led. -/
theorem locate_mono {t t' : Tree} (h : KeepsDirectories t t') {p : Path} {target : Target}
    (hlocate : t.locate p = .ok target) : t'.locate p = .ok target := by
  unfold locate at hlocate ⊢
  split
  · rename_i hzero
    rw [if_pos hzero] at hlocate
    cases hlocate
  · rename_i hzero
    rw [if_neg hzero] at hlocate
    split
    · rename_i hempty
      rw [if_pos hempty] at hlocate
      cases hlocate
    · rename_i hempty
      rw [if_neg hempty] at hlocate
      split
      · rename_i hlong
        rw [if_pos hlong] at hlocate
        cases hlocate
      · rename_i hlong
        rw [if_neg hlong] at hlocate
        simp only at hlocate ⊢
        split
        · rename_i hnone
          rw [hnone] at hlocate
          exact hlocate
        · rename_i last hlast
          rw [hlast] at hlocate
          simp only at hlocate
          split
          · rename_i hdots
            rw [if_pos hdots] at hlocate
            exact map_ok (fun _ => walk_mono h) hlocate
          · rename_i hdots
            rw [if_neg hdots] at hlocate
            exact map_ok (fun _ => walk_mono h) hlocate

theorem isDirectory_mono {t t' : Tree} (h : KeepsDirectories t t') {p : Path}
    (hdir : t.isDirectory p = true) : t'.isDirectory p = true := by
  unfold isDirectory at hdir
  split at hdir
  · cases hdir
  · rename_i hlocate
    rw [isDirectory, locate_mono h hlocate]
  · rename_i here name slash hlocate
    have hentry := h _ (of_decide_eq_true hdir)
    rw [isDirectory, locate_mono h hlocate]
    exact decide_eq_true hentry

end Tree

/-! ## Running steps -/

namespace FileM

theorem bind_apply {α β : Type} (x : FileM α) (f : α → FileM β) (t : Tree) :
    (x >>= f) t = match x t with
      | (.ok a, t) => f a t
      | (.error e, t) => (.error e, t) := by
  simp only [bind, ExceptT.bind, ExceptT.mk, StateT.bind]
  rcases x t with ⟨_ | _, _⟩ <;> rfl

theorem tryCatch_apply {α : Type} (x : FileM α) (f : Fault → FileM α) (t : Tree) :
    (tryCatch x f) t = match x t with
      | (.ok a, t) => (.ok a, t)
      | (.error e, t) => f e t := by
  simp only [tryCatch, tryCatchThe, MonadExceptOf.tryCatch, ExceptT.tryCatch, ExceptT.mk,
    StateT.bind, bind]
  rcases x t with ⟨_ | _, _⟩ <;> rfl

theorem get_apply (t : Tree) : (get : FileM Tree) t = (.ok t, t) := rfl

theorem set_apply (s t : Tree) : (set s : FileM Unit) t = (.ok (), s) := rfl

theorem modify_apply (f : Tree → Tree) (t : Tree) : (modify f : FileM Unit) t = (.ok (), f t) := rfl

theorem pure_apply {α : Type} (a : α) (t : Tree) : (pure a : FileM α) t = (.ok a, t) := rfl

theorem throw_apply {α : Type} (e : Fault) (t : Tree) : (throw e : FileM α) t = (.error e, t) := rfl

/-! ## Making directories -/

/-- What is known after an attempt to make a directory: none has gone, and if it worked the directory is
there. Nothing is made for the empty path. -/
structure Made (p : Path) (t : Tree) (r : Except Fault Unit) (t' : Tree) : Prop where
  keeps : Tree.KeepsDirectories t t'
  there : r = .ok () → p.isEmpty = false → t'.isDirectory p = true

theorem made_refused (p : Path) (t : Tree) (f : Fault) : Made p t (.error f) t :=
  ⟨Tree.KeepsDirectories.refl t, fun h => by cases h⟩

theorem Made.after {p : Path} {t₁ t₂ t₃ : Tree} {r : Except Fault Unit}
    (h : Tree.KeepsDirectories t₁ t₂) (h' : Made p t₂ r t₃) : Made p t₁ r t₃ :=
  ⟨h.trans h'.keeps, h'.there⟩

theorem made_makeDir {p : Path} {t t' : Tree} {r : Except Fault Unit} (h : makeDir p t = (r, t')) :
    Made p t r t' := by
  simp only [makeDir, bind_apply, get_apply] at h
  cases hlocate : t.locate p with
  | error f =>
    rw [hlocate] at h
    cases h
    exact made_refused p t f
  | ok target =>
    rw [hlocate] at h
    cases target with
    | directory =>
      cases h
      exact made_refused p t _
    | entry here name slash =>
      simp only at h
      by_cases hlong : Tree.longestName < name.utf8ByteSize
      · rw [if_pos hlong] at h
        cases h
        exact made_refused p t _
      · rw [if_neg hlong] at h
        by_cases htaken : (t.lookup (here ++ [name])).isSome = true
        · rw [if_pos htaken] at h
          cases h
          exact made_refused p t _
        · rw [if_neg htaken] at h
          cases h
          have hnone : t.lookup (here ++ [name]) = none := by simpa using htaken
          have hplace : here ++ [name] ≠ [] := by simp
          have hkeeps : Tree.KeepsDirectories t (t.set (here ++ [name]) .directory) :=
            Tree.keepsDirectories_set hplace (by simp [hnone]) _
          refine ⟨hkeeps, fun _ _ => ?_⟩
          rw [Tree.isDirectory, Tree.locate_mono hkeeps hlocate]
          exact decide_eq_true (by rw [Tree.lookup_set t hplace, if_pos rfl])

/-- A refusal does not matter if the directory is there. -/
def acceptIfThere (p : Path) (f : Fault) : FileM Unit := do
  if (← get).isDirectory p then return else throw f

theorem made_acceptIfThere {p : Path} {t t' : Tree} {f : Fault} {r : Except Fault Unit}
    (h : acceptIfThere p f t = (r, t')) : Made p t r t' := by
  simp only [acceptIfThere, bind_apply, get_apply] at h
  by_cases hdir : t.isDirectory p = true
  · rw [if_pos hdir] at h
    cases h
    exact ⟨Tree.KeepsDirectories.refl t, fun _ _ => hdir⟩
  · rw [if_neg hdir] at h
    cases h
    exact made_refused p t f

theorem makeDirsFrom_succ {p : Path} (hp : p.isEmpty = false) (fuel : Nat) :
    makeDirsFrom (fuel + 1) p = tryCatch (makeDir p) fun f =>
      if f = .missing then
        match p.parent with
        | none => throw .missing
        | some parent => makeDirsFrom fuel parent >>= fun _ => tryCatch (makeDir p) (acceptIfThere p)
      else acceptIfThere p f := by
  rw [makeDirsFrom, if_neg (by simp [hp])]
  rfl

/-- An attempt, and another one if it is refused. -/
theorem made_tryCatch {p : Path} {t t' : Tree} {r : Except Fault Unit} {refused : Fault → FileM Unit}
    (hrefused : ∀ (f : Fault) (t₁ t₂ : Tree) (r : Except Fault Unit),
      refused f t₁ = (r, t₂) → Made p t₁ r t₂)
    (h : (tryCatch (makeDir p) refused) t = (r, t')) : Made p t r t' := by
  rw [tryCatch_apply] at h
  rcases hmake : makeDir p t with ⟨_ | ⟨⟨⟩⟩, t₁⟩
  · rw [hmake] at h
    exact (hrefused _ _ _ _ h).after (made_makeDir hmake).keeps
  · rw [hmake] at h
    cases h
    exact made_makeDir hmake

theorem made_makeDirsFrom {fuel : Nat} {p : Path} {t t' : Tree} {r : Except Fault Unit}
    (h : makeDirsFrom fuel p t = (r, t')) : Made p t r t' := by
  induction fuel generalizing p t t' r with
  | zero =>
    cases h
    exact made_refused p t _
  | succ fuel ih =>
    cases hp : p.isEmpty with
    | true =>
      rw [makeDirsFrom, if_pos hp] at h
      cases h
      exact ⟨Tree.KeepsDirectories.refl t, fun _ hfull => by simp [hp] at hfull⟩
    | false =>
      rw [makeDirsFrom_succ hp] at h
      refine made_tryCatch (fun f t₁ t₂ r hrefused => ?_) h
      by_cases hmissing : f = .missing
      · rw [if_pos hmissing] at hrefused
        cases hparent : p.parent with
        | none =>
          rw [hparent] at hrefused
          cases hrefused
          exact made_refused p t₁ _
        | some parent =>
          rw [hparent] at hrefused
          simp only [bind_apply] at hrefused
          rcases habove : makeDirsFrom fuel parent t₁ with ⟨_ | ⟨⟨⟩⟩, t₃⟩
          · rw [habove] at hrefused
            cases hrefused
            exact (made_refused p _ _).after (ih habove).keeps
          · rw [habove] at hrefused
            have hagain := made_tryCatch (fun _ _ _ _ haccept => made_acceptIfThere haccept) hrefused
            exact hagain.after (ih habove).keeps
      · rw [if_neg hmissing] at hrefused
        exact made_acceptIfThere hrefused

theorem made_makeDirs {p : Path} {t t' : Tree} {r : Except Fault Unit}
    (h : makeDirs p t = (r, t')) : Made p t r t' := made_makeDirsFrom h

/-- Where a directory is there already, nothing is done. -/
theorem makeDirsFrom_of_isDirectory {p : Path} {t : Tree} (h : t.isDirectory p = true) (fuel : Nat) :
    makeDirsFrom (fuel + 1) p t = (.ok (), t) := by
  cases hp : p.isEmpty with
  | true => rw [makeDirsFrom, if_pos hp, pure_apply]
  | false =>
    have haccept : ∀ f, acceptIfThere p f t = (.ok (), t) := by
      intro f
      simp only [acceptIfThere, bind_apply, get_apply, if_pos h, pure_apply]
    have hrefused : ∃ f, f ≠ .missing ∧ makeDir p t = (.error f, t) := by
      simp only [makeDir, bind_apply, get_apply]
      unfold Tree.isDirectory at h
      cases hlocate : t.locate p with
      | error f => simp [hlocate] at h
      | ok target =>
        cases target with
        | directory => exact ⟨.exists, by decide, rfl⟩
        | entry here name slash =>
          rw [hlocate] at h
          have hthere : t.lookup (here ++ [name]) = some .directory := of_decide_eq_true h
          by_cases hlong : Tree.longestName < name.utf8ByteSize
          · exact ⟨.nameTooLong, by decide, by simp only [if_pos hlong, throw_apply]⟩
          · refine ⟨.exists, by decide, ?_⟩
            simp only [if_neg hlong, hthere, Option.isSome_some, if_true, throw_apply]
    obtain ⟨f, hmissing, hmake⟩ := hrefused
    rw [makeDirsFrom_succ hp, tryCatch_apply, hmake]
    simp only [if_neg hmissing, haccept]

theorem makeDirs_of_isDirectory {p : Path} {t : Tree} (h : t.isDirectory p = true) :
    makeDirs p t = (.ok (), t) := makeDirsFrom_of_isDirectory h _

/-! ## Files -/

end FileM

/-- The path names a place for a file: one that has a file or nothing, and no directory. -/
structure Tree.Names (t : Tree) (p : Path) (place : Location) : Prop where
  entry : ∃ here name, t.locate p = .ok (.entry here name false) ∧
    ¬ Tree.longestName < name.utf8ByteSize ∧ place = here ++ [name]
  free : t.lookup place ≠ some .directory

namespace Tree

theorem Names.ne_root {t : Tree} {p : Path} {place : Location} (h : t.Names p place) :
    place ≠ [] := by
  obtain ⟨here, name, -, -, hplace⟩ := h.entry
  simp [hplace]

/-- A path goes on naming a place as long as no directory comes to stand there. -/
theorem Names.mono {t t' : Tree} {p : Path} {place : Location} (h : t.Names p place)
    (hkeeps : KeepsDirectories t t') (hfree : t'.lookup place ≠ some .directory) :
    t'.Names p place := by
  obtain ⟨here, name, hlocate, hshort, hplace⟩ := h.entry
  exact ⟨⟨here, name, locate_mono hkeeps hlocate, hshort, hplace⟩, hfree⟩

end Tree

namespace FileM

/-- What a file at this place would be found to hold. -/
def found (t : Tree) (place : Location) : Option Bytes :=
  match t.lookup place with
  | some (.file content) => some content
  | _ => none

theorem openFile_of_names {t : Tree} {p : Path} {place : Location} (h : t.Names p place) :
    openFile p t = (.ok (place, found t place), t) := by
  obtain ⟨⟨here, name, hlocate, hshort, rfl⟩, hfree⟩ := h
  simp only [openFile, bind_apply, get_apply, hlocate, Bool.false_eq_true, if_false, if_neg hshort, found]
  cases hlookup : t.lookup (here ++ [name]) with
  | none => rfl
  | some node =>
    cases node with
    | directory => exact absurd hlookup hfree
    | file content => rfl

theorem names_of_openFile {t t' : Tree} {p : Path} {place : Location} {content : Option Bytes}
    (h : openFile p t = (.ok (place, content), t')) : t.Names p place := by
  simp only [openFile, bind_apply, get_apply] at h
  cases hlocate : t.locate p with
  | error f =>
    rw [hlocate] at h
    cases h
  | ok target =>
    rw [hlocate] at h
    cases target with
    | directory => cases h
    | entry here name slash =>
      cases slash with
      | true => cases h
      | false =>
        simp only [Bool.false_eq_true, if_false] at h
        by_cases hlong : Tree.longestName < name.utf8ByteSize
        · rw [if_pos hlong] at h
          cases h
        · rw [if_neg hlong] at h
          cases hlookup : t.lookup (here ++ [name]) with
          | none =>
            rw [hlookup] at h
            cases h
            exact ⟨⟨here, name, hlocate, hlong, rfl⟩, by simp [hlookup]⟩
          | some node =>
            rw [hlookup] at h
            cases node with
            | directory => cases h
            | file old =>
              cases h
              exact ⟨⟨here, name, hlocate, hlong, rfl⟩, by simp [hlookup]⟩

theorem openFile_ok {t t' : Tree} {p : Path} {place : Location} {content : Option Bytes}
    (h : openFile p t = (.ok (place, content), t')) :
    t.Names p place ∧ content = found t place ∧ t' = t := by
  have hnames := names_of_openFile h
  rw [openFile_of_names hnames] at h
  cases h
  exact ⟨hnames, rfl, rfl⟩

/-- A step that opens a file first fails unless the path names a place. -/
theorem openFile_bind_ok {α : Type} {t t' : Tree} {p : Path} {a : α}
    {next : Location × Option Bytes → FileM α} (h : (openFile p >>= next) t = (.ok a, t')) :
    ∃ place, t.Names p place ∧ next (place, found t place) t = (.ok a, t') := by
  rw [bind_apply] at h
  rcases hopen : openFile p t with ⟨_ | ⟨place, content⟩, t₁⟩
  · rw [hopen] at h
    cases h
  · obtain ⟨hnames, rfl, rfl⟩ := openFile_ok hopen
    rw [hopen] at h
    exact ⟨place, hnames, h⟩

theorem touch_ok {t t' : Tree} {p : Path} (h : touch p t = (.ok (), t')) :
    ∃ place, t.Names p place ∧
      ((∃ content, t.lookup place = some (.file content) ∧ t' = t) ∨
        (t.lookup place = none ∧ t' = t.set place (.file []))) := by
  obtain ⟨place, hnames, hnext⟩ := openFile_bind_ok h
  refine ⟨place, hnames, ?_⟩
  cases hlookup : t.lookup place with
  | none =>
    simp only [found, hlookup, Option.isNone_none, if_true, bind_apply, get_apply, set_apply] at hnext
    cases hnext
    exact .inr ⟨rfl, rfl⟩
  | some node =>
    cases node with
    | directory => exact absurd hlookup hnames.free
    | file content =>
      simp only [found, hlookup, Option.isNone_some, Bool.false_eq_true, if_false, pure_apply] at hnext
      cases hnext
      exact .inl ⟨content, rfl, rfl⟩

theorem touch_of_file {t : Tree} {p : Path} {place : Location} {content : Bytes}
    (h : t.Names p place) (hfile : t.lookup place = some (.file content)) :
    touch p t = (.ok (), t) := by
  simp only [touch, bind_apply, openFile_of_names h, found, hfile, Option.isNone_some,
    Bool.false_eq_true, if_false, pure_apply]

theorem write_ok {t t' : Tree} {p : Path} {content : Bytes} (h : write p content t = (.ok (), t')) :
    ∃ place, t.Names p place ∧ t' = t.set place (.file content) := by
  obtain ⟨place, hnames, hnext⟩ := openFile_bind_ok h
  simp only [bind_apply, get_apply, set_apply] at hnext
  cases hnext
  exact ⟨place, hnames, rfl⟩

theorem read_of_file {t : Tree} {p : Path} {place : Location} {content : Bytes}
    (h : t.Names p place) (hfile : t.lookup place = some (.file content)) :
    read p t = (.ok content, t) := by
  obtain ⟨⟨here, name, hlocate, hshort, rfl⟩, -⟩ := h
  simp only [read, bind_apply, get_apply, hlocate, if_neg hshort, hfile, Bool.false_eq_true, if_false,
    pure_apply]

/-- A file that is moved is what the target holds afterwards. -/
theorem rename_ok {t t' : Tree} {source target : Path} {place : Location} {content : Bytes}
    (hsource : t.Names source place) (hfile : t.lookup place = some (.file content))
    (h : rename source target t = (.ok (), t')) :
    ∃ new, t.Names target new ∧ t' = (t.erase place).set new (.file content) := by
  simp only [rename, bind_apply, read_of_file hsource hfile, openFile_of_names hsource] at h
  rcases hopen : openFile target t with ⟨_ | ⟨new, old⟩, t₁⟩
  · rw [hopen] at h
    cases h
  · obtain ⟨hnames, -, rfl⟩ := openFile_ok hopen
    rw [hopen] at h
    simp only [modify_apply] at h
    cases h
    exact ⟨new, hnames, rfl⟩

end FileM

end ExpiringCache.Files
