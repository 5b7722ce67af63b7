import ExpiringCache.Proofs.Places

/-!
The directories that paths stand in. What is found at a path is found by way of its directory, so that has to be
there. Main statements: a directory that cannot be made cannot be made after the attempt either, and a path whose
directory is there goes on leading where it led, or nowhere for the same reason, as long as no directory goes.
-/
namespace ExpiringCache.Files
set_option autoImplicit false

namespace Path

/-! ## Paths at which something can be found -/

/-- The pieces that are not empty, as a path is followed. -/
def solid (p : Path) : List String := p.pieces.filter fun piece => piece ≠ ""

theorem busy_solid (p : Path) : busy p.solid = busy p.pieces := busy_filter p.pieces

theorem busy_of_isEmpty {p : Path} (h : p.isEmpty = true) : busy p.pieces = [] := by
  rw [isEmpty, Bool.and_eq_true] at h
  refine busy_eq_nil fun piece hpiece => ?_
  have hempty : piece = "" := by simpa using List.all_eq_true.mp h.1 piece hpiece
  simp [isIdle, hempty]

theorem exists_parent {p : Path} {name : String} (hlast : p.pieces.getLast? = some name)
    (hidle : ¬ isIdle name = true) : ∃ q, p.parent = some q := by
  obtain ⟨rest, hbody⟩ := body_of_getLast? hlast hidle
  have hfull : ¬ p.body.isEmpty = true := by simp [hbody]
  exact ⟨_, if_neg hfull⟩

/-- What makes a path fit for the file system, whatever is there. -/
structure Readable (p : Path) : Prop where
  noZero : ∀ piece ∈ p.pieces, '\x00' ∉ piece.toList
  full : p.isEmpty = false
  short : p.text.utf8ByteSize < Tree.pathBound

theorem utf8ByteSize_intercalate_append (first second : List String) :
    ("/".intercalate first).utf8ByteSize ≤ ("/".intercalate (first ++ second)).utf8ByteSize := by
  induction first with
  | nil => exact Nat.zero_le _
  | cons piece first ih =>
    cases first with
    | nil =>
      cases second with
      | nil => exact Nat.le_refl _
      | cons next second =>
        rw [List.singleton_append, String.intercalate_cons_cons, String.utf8ByteSize_append,
          String.utf8ByteSize_append]
        have hone : "/".intercalate [piece] = piece := by simp
        rw [hone]
        omega
    | cons next first =>
      simp only [List.cons_append, String.intercalate_cons_cons, String.utf8ByteSize_append] at ih ⊢
      omega

/-- A directory is written with the first pieces of what stands in it, except for the root and the empty path. -/
theorem parent_pieces {p q : Path} (h : p.parent = some q) :
    q = ⟨["", ""]⟩ ∨ q.isEmpty = true ∨ q.pieces <+: p.pieces := by
  unfold parent at h
  split at h
  · split at h
    · cases h
      exact .inr (.inl rfl)
    · cases h
  · rename_i hbody
    have hne : p.body ≠ [] := by simpa using hbody
    cases h
    unfold rebuild
    split
    · exact .inl rfl
    · exact .inr (.inl rfl)
    · refine .inr (.inr ?_)
      obtain ⟨idle, -, hidle⟩ := exists_trimEnd p.body.dropLast
      obtain ⟨idle', -, hidle'⟩ := exists_trimEnd (p.pieces.drop p.front.length)
      have hbody' : p.body = trimEnd p.body.dropLast ++ idle ++ [p.body.getLast hne] := by
        rw [← hidle, List.dropLast_concat_getLast hne]
      refine ⟨idle ++ [p.body.getLast hne] ++ idle', ?_⟩
      calc p.front ++ trimEnd p.body.dropLast ++ (idle ++ [p.body.getLast hne] ++ idle')
          = p.front ++ (trimEnd p.body.dropLast ++ idle ++ [p.body.getLast hne] ++ idle') := by simp
        _ = p.front ++ (p.body ++ idle') := by rw [← hbody']
        _ = p.pieces := by
          rw [body, ← hidle', p.front_append]

theorem Readable.parent {p q : Path} (h : p.Readable) (hparent : p.parent = some q)
    (hfull : q.isEmpty = false) : q.Readable := by
  rcases parent_pieces hparent with rfl | hempty | ⟨rest, hpieces⟩
  · exact ⟨by simp, rfl, by decide⟩
  · rw [hfull] at hempty
    cases hempty
  · refine ⟨fun piece hpiece => h.noZero piece ?_, hfull, Nat.lt_of_le_of_lt ?_ h.short⟩
    · rw [← hpieces]
      exact List.mem_append_left rest hpiece
    · rw [text, text, ← hpieces]
      exact utf8ByteSize_intercalate_append _ _

end Path

namespace Tree

/-! ## On the way to a directory -/

theorem walk_append (t : Tree) (here : Location) (first second : List String) :
    t.walk here (first ++ second) = (t.walk here first).bind fun there => t.walk there second := by
  induction first generalizing here with
  | nil => rfl
  | cons piece first ih =>
    simp only [List.cons_append, walk]
    split
    · exact ih here
    · split
      · exact ih here.dropLast
      · split
        · rfl
        · split
          · rfl
          · rfl
          · exact ih (here ++ [piece])

theorem walk_append_ok {t : Tree} {here there : Location} {first second : List String}
    (h : t.walk here (first ++ second) = .ok there) :
    ∃ middle, t.walk here first = .ok middle ∧ t.walk middle second = .ok there := by
  rw [walk_append] at h
  cases hfirst : t.walk here first with
  | error f =>
    rw [hfirst] at h
    cases h
  | ok middle =>
    rw [hfirst] at h
    exact ⟨middle, rfl, h⟩

theorem walk_busy (t : Tree) (here : Location) (pieces : List String) :
    t.walk here (Path.busy pieces) = t.walk here pieces := by
  induction pieces generalizing here with
  | nil => rfl
  | cons piece pieces ih =>
    by_cases hidle : Path.isIdle piece = true
    · rw [Path.busy, List.filter_cons_of_neg (by simp [hidle]), walk, if_pos hidle]
      exact ih here
    · rw [Path.busy, List.filter_cons_of_pos (by simpa using hidle)]
      unfold walk
      rw [if_neg hidle, if_neg hidle]
      split
      · exact ih here.dropLast
      · split
        · rfl
        · split
          · rfl
          · rfl
          · exact ih (here ++ [piece])

/-- Two ways along the same pieces that lead somewhere are one. -/
theorem walk_congr (t : Tree) (here : Location) {pieces pieces' : List String}
    (h : Path.busy pieces = Path.busy pieces') : t.walk here pieces = t.walk here pieces' := by
  rw [← walk_busy, h, walk_busy]

/-- One more piece that is a name is gone down just to a directory. -/
theorem walk_name_ok {t : Tree} {here there : Location} {name : String} (hidle : ¬ Path.isIdle name = true)
    (hdown : name ≠ "..") (h : t.walk here [name] = .ok there) :
    t.lookup (here ++ [name]) = some .directory := by
  unfold walk at h
  rw [if_neg hidle, if_neg hdown] at h
  split at h
  · cases h
  · split at h
    · cases h
    · cases h
    · assumption

theorem readable_of_locate {t : Tree} {p : Path} {target : Target} (h : t.locate p = .ok target) :
    p.Readable := by
  unfold locate at h
  split at h
  · cases h
  rename_i hzero
  split at h
  · cases h
  rename_i hempty
  split at h
  · cases h
  rename_i hlong
  exact ⟨by simpa using hzero, by simpa using hempty, Nat.not_le.mp hlong⟩

theorem locate_eq {p : Path} (h : p.Readable) (t : Tree) :
    t.locate p =
      match p.solid.getLast? with
      | none => .ok .directory
      | some last =>
        if last = "." || last = ".." then (t.walk [] p.solid).map fun _ => .directory
        else (t.walk [] p.solid.dropLast).map fun here =>
          .entry here last (p.pieces.getLast? = some "") := by
  have hzero : ¬ (p.pieces.any fun piece => piece.toList.contains '\x00') = true := by
    simpa using h.noZero
  rw [locate, if_neg hzero, if_neg (by simp [h.full]), if_neg (Nat.not_le.mpr h.short)]
  rfl

/-- What is looked for at a path depends on how it ends: in no piece at all, in dots, or in a name. -/
theorem locate_cases {p : Path} (h : p.Readable) :
    (p.solid = [] ∧ ∀ t : Tree, t.locate p = .ok .directory) ∨
      (∃ last, p.solid.getLast? = some last ∧ (last = "." ∨ last = "..") ∧
        ∀ t : Tree, t.locate p = (t.walk [] p.solid).map fun _ => .directory) ∨
      ∃ rest last, p.solid = rest ++ [last] ∧ ¬ Path.isIdle last = true ∧ last ≠ ".." ∧
        ∀ t : Tree, t.locate p =
          (t.walk [] rest).map fun here => .entry here last (p.pieces.getLast? = some "") := by
  cases hend : p.solid.getLast? with
  | none => exact .inl ⟨List.getLast?_eq_none_iff.mp hend, fun t => by rw [locate_eq h, hend]⟩
  | some last =>
    by_cases hdots : last = "." ∨ last = ".."
    · exact .inr (.inl ⟨last, rfl, hdots, fun t => by rw [locate_eq h, hend]; simp [hdots]⟩)
    · obtain ⟨rest, hrest⟩ := List.getLast?_eq_some_iff.mp hend
      have hsolid : last ≠ "" := by
        have hmem : last ∈ p.solid := List.mem_of_getLast? hend
        simpa using (List.mem_filter.mp hmem).2
      rw [not_or] at hdots
      refine .inr (.inr ⟨rest, last, hrest, by simp [Path.isIdle, hsolid, hdots.1], hdots.2, fun t => ?_⟩)
      rw [locate_eq h, hend, hrest, List.dropLast_concat]
      simp [hdots]

/-- What is found at a path is found by way of the pieces before the last. -/
theorem walk_of_locate {t : Tree} {p : Path} {target : Target} (h : t.locate p = .ok target) :
    ∃ there, t.walk [] (Path.busy p.pieces).dropLast = .ok there := by
  rw [← Path.busy_solid]
  rcases locate_cases (readable_of_locate h) with ⟨hnone, -⟩ | ⟨last, -, -, hlocate⟩ |
    ⟨rest, last, hsolid, hidle, -, hlocate⟩
  · exact ⟨[], by rw [hnone]; rfl⟩
  · rw [hlocate] at h
    cases hwalk : t.walk [] p.solid with
    | error f =>
      rw [hwalk] at h
      cases h
    | ok there =>
      rw [← walk_busy] at hwalk
      cases hbusy : Path.busy p.solid using List.reverseRecOn with
      | nil => exact ⟨[], rfl⟩
      | append_singleton first final =>
        rw [hbusy] at hwalk
        obtain ⟨middle, hfirst, -⟩ := walk_append_ok hwalk
        rw [List.dropLast_concat]
        exact ⟨middle, hfirst⟩
  · rw [hlocate] at h
    cases hwalk : t.walk [] rest with
    | error f =>
      rw [hwalk] at h
      cases h
    | ok there =>
      rw [hsolid, Path.busy_concat hidle, List.dropLast_concat, walk_busy]
      exact ⟨there, hwalk⟩

/-- A way that can be walked leads to a directory. -/
theorem isDirectory_of_walk {t : Tree} {p : Path} {there : Location} (hreadable : p.Readable)
    (h : t.walk [] p.pieces = .ok there) : t.isDirectory p = true := by
  rw [walk_congr t [] (Path.busy_solid p).symm] at h
  rcases locate_cases hreadable with ⟨-, hlocate⟩ | ⟨last, -, -, hlocate⟩ |
    ⟨rest, last, hsolid, hidle, hdown, hlocate⟩
  · rw [isDirectory, hlocate]
  · rw [isDirectory, hlocate, h]
    rfl
  · rw [hsolid] at h
    obtain ⟨here, hrest, hlast⟩ := walk_append_ok h
    rw [isDirectory, hlocate, hrest]
    exact decide_eq_true (walk_name_ok hidle hdown hlast)

/-- Where something is found at a path, its directory is there. -/
theorem isDirectory_parent {t : Tree} {p q : Path} {target : Target} (h : t.locate p = .ok target)
    (hparent : p.parent = some q) (hfull : q.isEmpty = false) : t.isDirectory q = true := by
  obtain ⟨there, hwalk⟩ := walk_of_locate h
  rw [← Path.busy_parent hparent, walk_busy] at hwalk
  exact isDirectory_of_walk ((readable_of_locate h).parent hparent hfull) hwalk

/-- The way to a directory that is there stays what it is, also where a name on it is too long to go on. -/
theorem walk_eq_of_isDirectory {t t' : Tree} {p : Path} (hkeeps : KeepsDirectories t t')
    (h : t.isDirectory p = true) : t'.walk [] p.pieces = t.walk [] p.pieces := by
  have hlocated : ∃ target, t.locate p = .ok target := by
    unfold isDirectory at h
    split at h
    · cases h
    · exact ⟨_, ‹_›⟩
    · exact ⟨_, ‹_›⟩
  obtain ⟨target, htarget⟩ := hlocated
  rw [walk_congr t [] (Path.busy_solid p).symm, walk_congr t' [] (Path.busy_solid p).symm]
  rcases locate_cases (readable_of_locate htarget) with ⟨hnone, -⟩ | ⟨last, -, -, hlocate⟩ |
    ⟨rest, last, hsolid, hidle, hdown, hlocate⟩
  · rw [hnone]
    rfl
  · cases hwalk : t.walk [] p.solid with
    | error f =>
      rw [hlocate, hwalk] at htarget
      cases htarget
    | ok there => exact walk_mono hkeeps hwalk
  · cases hwalk : t.walk [] rest with
    | error f =>
      rw [hlocate, hwalk] at htarget
      cases htarget
    | ok here =>
      have hthere : t.lookup (here ++ [last]) = some .directory := by
        rw [isDirectory, hlocate, hwalk] at h
        exact of_decide_eq_true h
      rw [hsolid, walk_append, walk_append, hwalk, walk_mono hkeeps hwalk]
      simp only [Except.bind, walk, if_neg hidle, if_neg hdown, hthere, hkeeps _ hthere]

/-- What ends in a name is looked for as before as long as no directory goes, if its own directory is there. -/
theorem locate_eq_of_parent {t t' : Tree} {p : Path} {name : String} (hlast : p.pieces.getLast? = some name)
    (hidle : ¬ Path.isIdle name = true) (hdown : name ≠ "..") (hkeeps : KeepsDirectories t t')
    (hdir : ∀ q, p.parent = some q → q.isEmpty = false → t.isDirectory q = true) :
    t'.locate p = t.locate p := by
  by_cases hreadable : p.Readable
  · have hsolid : p.solid.getLast? = some name := by
      obtain ⟨rest, hrest⟩ := List.getLast?_eq_some_iff.mp hlast
      have hname : name ≠ "" := fun h => hidle (by simp [Path.isIdle, h])
      rw [Path.solid, hrest, List.filter_append, List.filter_cons_of_pos (by simpa using hname),
        List.filter_nil, List.getLast?_concat]
    rcases locate_cases hreadable with ⟨-, hlocate⟩ | ⟨last, hend, hdots, -⟩ |
      ⟨rest, last, hrest, hidle', -, hlocate⟩
    · rw [hlocate, hlocate]
    · cases hsolid.symm.trans hend
      rcases hdots with rfl | rfl
      · exact absurd rfl hidle
      · exact absurd rfl hdown
    · obtain ⟨q, hparent⟩ := Path.exists_parent hlast hidle
      have hbusy : Path.busy rest = Path.busy q.pieces := by
        rw [Path.busy_parent hparent, ← Path.busy_solid p, hrest, Path.busy_concat hidle', List.dropLast_concat]
      have hwalk : t'.walk [] rest = t.walk [] rest := by
        rw [walk_congr t [] hbusy, walk_congr t' [] hbusy]
        cases hempty : q.isEmpty with
        | true =>
          have hnone : Path.busy q.pieces = Path.busy [] := Path.busy_of_isEmpty hempty
          rw [walk_congr t [] hnone, walk_congr t' [] hnone]
          rfl
        | false => exact walk_eq_of_isDirectory hkeeps (hdir q hparent hempty)
      rw [hlocate, hlocate, hwalk]
  · unfold locate
    split
    · rfl
    · rename_i hzero
      split
      · rfl
      · rename_i hempty
        split
        · rfl
        · rename_i hlong
          exact absurd ⟨by simpa using hzero, by simpa using hempty, Nat.not_le.mp hlong⟩ hreadable

end Tree

namespace FileM

/-! ## Making directories again -/

theorem makeDir_refused {p : Path} {t t' : Tree} {f : Fault} (h : makeDir p t = (.error f, t')) : t' = t := by
  simp only [makeDir, bind_apply, get_apply] at h
  cases hlocate : t.locate p with
  | error f =>
    rw [hlocate] at h
    cases h
    rfl
  | ok target =>
    rw [hlocate] at h
    cases target with
    | directory =>
      cases h
      rfl
    | entry here name slash =>
      simp only at h
      split at h
      · cases h
        rfl
      · split at h <;> cases h
        rfl

theorem makeDir_of_lost {p : Path} {t : Tree} {f : Fault} (h : t.locate p = .error f) :
    makeDir p t = (.error f, t) := by
  simp only [makeDir, bind_apply, get_apply, h, throw_apply]

theorem acceptIfThere_refused {p : Path} {t t' : Tree} {f f' : Fault}
    (h : acceptIfThere p f t = (.error f', t')) : t' = t ∧ t.isDirectory p = false := by
  simp only [acceptIfThere, bind_apply, get_apply] at h
  cases hdir : t.isDirectory p with
  | true =>
    rw [if_pos hdir] at h
    cases h
  | false =>
    rw [if_neg (by simp [hdir])] at h
    cases h
    exact ⟨rfl, rfl⟩

theorem acceptIfThere_of_not {p : Path} {t : Tree} (f : Fault) (h : t.isDirectory p = false) :
    acceptIfThere p f t = (.error f, t) := by
  simp only [acceptIfThere, bind_apply, get_apply, h, Bool.false_eq_true, if_false, throw_apply]

theorem makeDirsFrom_of_isEmpty {p : Path} (h : p.isEmpty = true) (fuel : Nat) (t : Tree) :
    makeDirsFrom (fuel + 1) p t = (.ok (), t) := by
  rw [makeDirsFrom, if_pos h, pure_apply]

/-- Directories that have been made are there when they are made again. -/
theorem makeDirsFrom_again {fuel : Nat} {p : Path} {t t' : Tree} (h : makeDirsFrom fuel p t = (.ok (), t')) :
    makeDirsFrom fuel p t' = (.ok (), t') := by
  cases fuel with
  | zero => cases h
  | succ fuel =>
    cases hempty : p.isEmpty with
    | true => exact makeDirsFrom_of_isEmpty hempty fuel t'
    | false => exact makeDirsFrom_of_isDirectory ((made_makeDirsFrom h).there rfl hempty) fuel

/-- Nothing is found in a directory that is not there, so none is made in one that cannot be made. -/
theorem makeDirsFrom_of_above_refused {fuel : Nat} {p q : Path} {t : Tree} {e : Fault} (hfull : p.isEmpty = false)
    (hparent : p.parent = some q) (h : (makeDirsFrom (fuel + 1) q t).1 = .error e) :
    ∃ f, (makeDirsFrom (fuel + 2) p t).1 = .error f := by
  have hlost : ∃ f, t.locate p = .error f := by
    cases hlocate : t.locate p with
    | error f => exact ⟨f, rfl⟩
    | ok target =>
      have hthere : makeDirsFrom (fuel + 1) q t = (.ok (), t) := by
        cases hempty : q.isEmpty with
        | true => exact makeDirsFrom_of_isEmpty hempty fuel t
        | false => exact makeDirsFrom_of_isDirectory (Tree.isDirectory_parent hlocate hparent hempty) fuel
      rw [hthere] at h
      cases h
  obtain ⟨f, hlost⟩ := hlost
  have hnot : t.isDirectory p = false := by rw [Tree.isDirectory, hlost]
  rw [makeDirsFrom_succ hfull, tryCatch_apply, makeDir_of_lost hlost]
  simp only
  split
  · rcases habove : makeDirsFrom (fuel + 1) q t with ⟨r, t₁⟩
    rw [habove] at h
    cases h
    exact ⟨e, by simp only [hparent, bind_apply, habove]⟩
  · exact ⟨f, by rw [acceptIfThere_of_not f hnot]⟩

theorem makeDirsFrom_of_refused {fuel : Nat} {p q : Path} {t : Tree} {f : Fault} (hfull : p.isEmpty = false)
    (hparent : p.parent = some q) (habove : makeDirsFrom fuel q t = (.ok (), t))
    (hmake : makeDir p t = (.error f, t)) (hnot : t.isDirectory p = false) :
    ∃ f, (makeDirsFrom (fuel + 1) p t).1 = .error f := by
  rw [makeDirsFrom_succ hfull, tryCatch_apply, hmake]
  refine ⟨f, ?_⟩
  simp only
  split
  · simp only [hparent, bind_apply, habove, tryCatch_apply, hmake, acceptIfThere_of_not f hnot]
  · rw [acceptIfThere_of_not f hnot]

/-- A directory that could not be made cannot be made after the attempt either, though perhaps for another reason:
what was in its way may be met earlier once directories above it are there. -/
theorem makeDirsFrom_refused_again {fuel : Nat} {p : Path} {t t' : Tree} {f : Fault}
    (h : makeDirsFrom fuel p t = (.error f, t')) : ∃ f', (makeDirsFrom fuel p t').1 = .error f' := by
  induction fuel generalizing p t t' f with
  | zero => exact ⟨.missing, rfl⟩
  | succ fuel ih =>
    by_cases hsame : t' = t
    · exact ⟨f, by rw [hsame, h]⟩
    have hfull : p.isEmpty = false := by
      by_contra hempty
      rw [makeDirsFrom_of_isEmpty (by simpa using hempty)] at h
      cases h
    rw [makeDirsFrom_succ hfull, tryCatch_apply] at h
    rcases hmake : makeDir p t with ⟨f₀ | ⟨⟨⟩⟩, t₀⟩
    · cases makeDir_refused hmake
      rw [hmake] at h
      simp only at h
      split at h
      · cases hparent : p.parent with
        | none =>
          rw [hparent] at h
          cases h
          exact absurd rfl hsame
        | some q =>
          simp only [hparent, bind_apply] at h
          rcases habove : makeDirsFrom fuel q t with ⟨e | ⟨⟨⟩⟩, t₁⟩
          · rw [habove] at h
            cases h
            cases fuel with
            | zero =>
              cases habove
              exact absurd rfl hsame
            | succ fuel =>
              obtain ⟨e', hagain⟩ := ih habove
              exact makeDirsFrom_of_above_refused hfull hparent hagain
          · rw [habove] at h
            simp only [tryCatch_apply] at h
            rcases hmake' : makeDir p t₁ with ⟨f₁ | ⟨⟨⟩⟩, t₂⟩
            · cases makeDir_refused hmake'
              rw [hmake'] at h
              obtain ⟨rfl, hnot⟩ := acceptIfThere_refused h
              exact makeDirsFrom_of_refused hfull hparent (makeDirsFrom_again habove) hmake' hnot
            · rw [hmake'] at h
              cases h
      · exact absurd (acceptIfThere_refused h).1 hsame
    · rw [hmake] at h
      cases h

theorem makeDirs_refused_again {p : Path} {t t' : Tree} {f : Fault} (h : makeDirs p t = (.error f, t')) :
    ∃ f', (makeDirs p t').1 = .error f' := makeDirsFrom_refused_again h

/-- The second time it is another reason, where the way goes up again. -/
example :
    let t : Tree := ({} : Tree).set ["f"] (.file [])
    let p : Path := .ofText "b/../f/x"
    (makeDirs p t).1 = .error .exists ∧ (makeDirs p (makeDirs p t).2).1 = .error .notDirectory := by
  cbv

end FileM

end ExpiringCache.Files
