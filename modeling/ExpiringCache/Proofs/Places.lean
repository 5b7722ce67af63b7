import ExpiringCache.Proofs.FileSteps
import Mathlib.Data.List.DropRight

/-!
Where paths lead. In a tree without links that is fixed by what is written: going down appends a name and
two dots take one away, whatever stands there. So two paths with different last names never lead to one
file, and making the directories of a path puts none deeper than the path goes.
-/
namespace ExpiringCache.Files
set_option autoImplicit false

namespace Path

/-! ## Pieces between slashes -/

theorem split_ne_nil (cs : List Char) : split cs ≠ [] := by
  induction cs with
  | nil => simp [split]
  | cons c cs ih =>
    unfold split
    split
    · simp
    · split <;> simp

theorem split_of_noSlash {cs : List Char} (h : '/' ∉ cs) : split cs = [cs] := by
  induction cs with
  | nil => rfl
  | cons c cs ih =>
    have hc : c ≠ '/' := fun hc => h (by simp [hc])
    rw [split, if_neg hc, ih fun hcs => h (List.mem_cons_of_mem c hcs)]

theorem noSlash_of_mem_split {cs piece : List Char} (h : piece ∈ split cs) : '/' ∉ piece := by
  induction cs generalizing piece with
  | nil =>
    rw [split, List.mem_singleton] at h
    simp [h]
  | cons c cs ih =>
    rw [split] at h
    split at h
    · rcases List.mem_cons.mp h with rfl | h
      · simp
      · exact ih h
    · rename_i hc
      cases hrest : split cs with
      | nil => exact absurd hrest (split_ne_nil cs)
      | cons first rest =>
        rw [hrest] at h ih
        rcases List.mem_cons.mp h with rfl | h
        · rintro hslash
          rcases List.mem_cons.mp hslash with heq | hslash
          · exact hc heq.symm
          · exact ih List.mem_cons_self hslash
        · exact ih (List.mem_cons_of_mem first h)

/-- A name that something is added to is not the last piece of what comes out. -/
theorem getLast?_ofText_append (name : String) {ending : String} (hending : ending ≠ "")
    (hplain : '/' ∉ ending.toList) :
    ∃ last, (ofText (name ++ ending)).pieces.getLast? = some last ∧ last ≠ name := by
  have hpieces : (split (name ++ ending).toList).getLast? =
      some ((split (name ++ ending).toList).getLast (split_ne_nil _)) := List.getLast?_eq_some_getLast _
  refine ⟨_, by rw [ofText, List.getLast?_map, hpieces]; rfl, fun heq => ?_⟩
  have hlast : (split (name ++ ending).toList).getLast (split_ne_nil _) = name.toList := by
    simpa using congrArg String.toList heq
  have hname : '/' ∉ name.toList := hlast ▸ noSlash_of_mem_split (List.getLast_mem _)
  have hwhole : '/' ∉ (name ++ ending).toList := by simp [hname, hplain]
  have hsame : (name ++ ending).toList = name.toList := by
    rw [← hlast]
    simp only [split_of_noSlash hwhole, List.getLast_singleton]
  rw [String.toList_append] at hsame
  exact hending (String.toList_eq_nil_iff.mp (List.append_right_eq_self.mp hsame))

/-! ## Last names -/

theorem trimEnd_concat {pieces : List String} {last : String} (h : ¬ isIdle last = true) :
    trimEnd (pieces ++ [last]) = pieces ++ [last] := by
  rw [trimEnd, List.reverse_append, List.reverse_singleton, List.singleton_append,
    List.dropWhile_cons_of_neg h, List.reverse_cons, List.reverse_reverse]

/-- Only what leads nowhere comes before the first name. -/
theorem idle_front (p : Path) : ∀ piece ∈ p.front, isIdle piece = true := by
  intro piece hpiece
  unfold front at hpiece
  split at hpiece
  · simp_all [isIdle]
  · split at hpiece
    · simp_all [isIdle]
    · cases hpiece

/-- What stands before the first name is how the path begins. -/
theorem front_append (p : Path) : p.front ++ p.pieces.drop p.front.length = p.pieces := by
  unfold front
  split
  · rename_i habsolute
    simp only [isAbsolute, Bool.and_eq_true, decide_eq_true_eq] at habsolute
    cases hp : p.pieces with
    | nil => simp [hp] at habsolute
    | cons first rest =>
      have hfirst : first = "" := by simpa [hp] using habsolute.1
      simp [hfirst]
  · split
    · rename_i hdot
      cases hp : p.pieces with
      | nil => simp [hp] at hdot
      | cons first rest =>
        have hfirst : first = "." := by simpa [hp] using hdot
        simp [hfirst]
    · rfl

/-- A path that ends in a name has that as its last name. -/
theorem body_of_getLast? {p : Path} {last : String} (h : p.pieces.getLast? = some last)
    (hidle : ¬ isIdle last = true) : ∃ rest, p.body = rest ++ [last] := by
  have hsplit := p.front_append
  cases hdrop : (p.pieces.drop p.front.length).getLast? with
  | none =>
    rw [List.getLast?_eq_none_iff] at hdrop
    rw [hdrop, List.append_nil] at hsplit
    rw [← hsplit] at h
    exact absurd (p.idle_front last (List.mem_of_getLast? h)) hidle
  | some x =>
    have hx : x = last := by
      rw [← hsplit, List.getLast?_append, hdrop] at h
      simpa using h
    obtain ⟨rest, hrest⟩ := List.getLast?_eq_some_iff.mp hdrop
    refine ⟨rest, ?_⟩
    rw [body, hrest, hx, trimEnd_concat hidle]

theorem name_of_getLast? {p : Path} {last : String} (h : p.pieces.getLast? = some last)
    (hidle : ¬ isIdle last = true) (hup : last ≠ "..") : p.name = some last := by
  obtain ⟨rest, hbody⟩ := body_of_getLast? h hidle
  rw [name, hbody, List.getLast?_concat, Option.filter_some_pos (by simpa using hup)]

theorem getLast?_join_ofText (p : Path) (text : String) :
    (p.join (ofText text)).pieces.getLast? = (ofText text).pieces.getLast? := by
  unfold join
  split
  · rfl
  · have hne : (ofText text).pieces ≠ [] := by simp [ofText, split_ne_nil]
    rw [List.getLast?_append, List.getLast?_eq_some_getLast hne, Option.some_or]

theorem getLast?_withName (p : Path) (text : String) :
    (p.withName text).pieces.getLast? = (ofText text).pieces.getLast? := by
  unfold withName
  split <;> exact getLast?_join_ofText _ text

/-! ## Pieces that lead somewhere -/

def busy (pieces : List String) : List String := pieces.filter fun piece => !isIdle piece

theorem busy_append (first second : List String) : busy (first ++ second) = busy first ++ busy second :=
  List.filter_append _ _

theorem busy_eq_nil {pieces : List String} (h : ∀ piece ∈ pieces, isIdle piece = true) : busy pieces = [] :=
  List.filter_eq_nil_iff.mpr fun piece hpiece => by simp [h piece hpiece]

theorem busy_concat {rest : List String} {last : String} (h : ¬ isIdle last = true) :
    busy (rest ++ [last]) = busy rest ++ [last] := by
  have hlast : busy [last] = [last] := List.filter_cons_of_pos (by simpa using h)
  rw [busy_append, hlast]

theorem busy_filter (pieces : List String) : busy (pieces.filter fun piece => piece ≠ "") = busy pieces := by
  rw [busy, List.filter_filter]
  refine List.filter_congr fun piece _ => ?_
  by_cases hempty : piece = ""
  · simp [hempty, isIdle]
  · simp [hempty]

/-! ## Where a path leads -/

def resolve (here : Location) : List String → Location
  | [] => here
  | piece :: rest =>
    if isIdle piece then resolve here rest
    else if piece = ".." then resolve here.dropLast rest
    else resolve (here ++ [piece]) rest

def place (p : Path) : Location := resolve [] p.pieces

theorem resolve_append (here : Location) (first second : List String) :
    resolve here (first ++ second) = resolve (resolve here first) second := by
  induction first generalizing here with
  | nil => rfl
  | cons piece first ih =>
    simp only [List.cons_append, resolve]
    split
    · exact ih here
    · split
      · exact ih here.dropLast
      · exact ih (here ++ [piece])

theorem resolve_busy (here : Location) (pieces : List String) :
    resolve here (busy pieces) = resolve here pieces := by
  induction pieces generalizing here with
  | nil => rfl
  | cons piece pieces ih =>
    by_cases hidle : isIdle piece = true
    · rw [busy, List.filter_cons_of_neg (by simp [hidle]), resolve, if_pos hidle]
      exact ih here
    · rw [busy, List.filter_cons_of_pos (by simpa using hidle)]
      simp only [resolve, if_neg hidle]
      split
      · exact ih here.dropLast
      · exact ih (here ++ [piece])

theorem resolve_filter (here : Location) (pieces : List String) :
    resolve here (pieces.filter fun piece => piece ≠ "") = resolve here pieces := by
  rw [← resolve_busy, busy_filter, resolve_busy]

/-! ## How deep a path goes -/

/-- The number of names, two dots counted as one. -/
def depth (p : Path) : Nat := p.pieces.countP fun piece => !isIdle piece

theorem length_resolve_le (here : Location) (pieces : List String) :
    (resolve here pieces).length ≤ here.length + pieces.countP fun piece => !isIdle piece := by
  induction pieces generalizing here with
  | nil => simp [resolve]
  | cons piece pieces ih =>
    rw [resolve]
    split
    · rename_i hidle
      rw [List.countP_cons_of_neg (by simp [hidle])]
      exact ih here
    · rename_i hidle
      rw [List.countP_cons_of_pos (by simpa using hidle)]
      split
      · have h := ih here.dropLast
        rw [List.length_dropLast] at h
        omega
      · have h := ih (here ++ [piece])
        rw [List.length_append, List.length_singleton] at h
        omega

theorem length_resolve {pieces : List String} (h : ".." ∉ pieces) (here : Location) :
    (resolve here pieces).length = here.length + pieces.countP fun piece => !isIdle piece := by
  induction pieces generalizing here with
  | nil => simp [resolve]
  | cons piece pieces ih =>
    have hup : piece ≠ ".." := fun hup => h (by simp [hup])
    have ih := ih fun hrest => h (List.mem_cons_of_mem piece hrest)
    rw [resolve]
    split
    · rename_i hidle
      rw [List.countP_cons_of_neg (by simp [hidle])]
      exact ih here
    · rename_i hidle
      rw [List.countP_cons_of_pos (by simpa using hidle), ih (here ++ [piece]),
        List.length_append, List.length_singleton]
      omega

theorem length_place_le (p : Path) : p.place.length ≤ p.depth := by
  simpa [place, depth] using length_resolve_le [] p.pieces

theorem length_place {p : Path} (h : ".." ∉ p.pieces) : p.place.length = p.depth := by
  simpa [place, depth] using length_resolve h []

theorem trimEnd_getLast {pieces : List String} (h : trimEnd pieces ≠ []) :
    ¬ isIdle ((trimEnd pieces).getLast h) = true := by
  have hne : pieces.reverse.dropWhile isIdle ≠ [] := by simpa [trimEnd] using h
  have hhead : (trimEnd pieces).getLast h = (pieces.reverse.dropWhile isIdle).head hne := by
    simp only [trimEnd, List.getLast_reverse]
  rw [hhead]
  simpa using List.head_dropWhile_not isIdle hne

/-- Only what leads nowhere is trimmed off. -/
theorem exists_trimEnd (pieces : List String) :
    ∃ idle, (∀ piece ∈ idle, isIdle piece = true) ∧ pieces = trimEnd pieces ++ idle := by
  refine ⟨pieces.rtakeWhile isIdle, fun piece hpiece => List.mem_rtakeWhile_imp hpiece, ?_⟩
  exact List.rdropWhile_append_rtakeWhile.symm

theorem busy_trimEnd (pieces : List String) : busy (trimEnd pieces) = busy pieces := by
  obtain ⟨idle, hidle, hpieces⟩ := exists_trimEnd pieces
  conv_rhs => rw [hpieces, busy_append, busy_eq_nil hidle, List.append_nil]

theorem busy_rebuild (front body : List String) :
    busy (rebuild front body).pieces = busy (front ++ body) := by
  unfold rebuild
  split <;> rfl

theorem busy_body (p : Path) : busy p.body = busy p.pieces := by
  conv_rhs => rw [← p.front_append, busy_append, busy_eq_nil p.idle_front, List.nil_append]
  exact busy_trimEnd _

/-- The directory that a path stands in is reached by what leads somewhere in it, but for the last piece. -/
theorem busy_parent {p q : Path} (h : p.parent = some q) : busy q.pieces = (busy p.pieces).dropLast := by
  rw [← p.busy_body]
  unfold parent at h
  split at h
  · rename_i hbody
    rw [List.isEmpty_iff.mp hbody]
    split at h
    · cases h
      rfl
    · cases h
  · rename_i hbody
    have hne : p.body ≠ [] := by simpa using hbody
    cases h
    have hend : ¬ isIdle (p.body.getLast hne) = true := trimEnd_getLast hne
    conv_rhs => rw [← List.dropLast_concat_getLast hne, busy_concat hend, List.dropLast_concat]
    rw [busy_rebuild, busy_append, busy_eq_nil p.idle_front, busy_trimEnd, List.nil_append]

/-- The directory that a path stands in is less deep, except for a path that stands at the root. -/
theorem depth_parent {p q : Path} (h : p.parent = some q) : q.depth ≤ p.depth - 1 := by
  have hdepth : ∀ p : Path, p.depth = (busy p.pieces).length := fun p => List.countP_eq_length_filter
  rw [hdepth, hdepth, busy_parent h, List.length_dropLast]

/-- The place of a path, and those of the directories that it stands in, one above the other. -/
inductive Passes : Path → Location → Prop
  | here (p : Path) : Passes p p.place
  | above {p q : Path} {loc : Location} : p.parent = some q → Passes q loc → Passes p loc

theorem Passes.length_le {p : Path} {loc : Location} (h : p.Passes loc) : loc.length ≤ p.depth := by
  induction h with
  | here p => exact p.length_place_le
  | above hparent _ ih =>
    have hless := depth_parent hparent
    omega

end Path

namespace Tree

theorem resolve_of_walk {t : Tree} {pieces : List String} {here there : Location}
    (h : t.walk here pieces = .ok there) : there = Path.resolve here pieces := by
  induction pieces generalizing here with
  | nil =>
    cases h
    rfl
  | cons piece rest ih =>
    unfold walk at h
    rw [Path.resolve]
    split at h
    · rename_i hidle
      rw [if_pos hidle]
      exact ih h
    · rename_i hidle
      rw [if_neg hidle]
      split at h
      · rename_i hup
        rw [if_pos hup]
        exact ih h
      · rename_i hup
        rw [if_neg hup]
        split at h
        · cases h
        · split at h
          · cases h
          · cases h
          · exact ih h

/-- What is known of a path that is found to end in a name. -/
structure Ends (p : Path) (here : Location) (name : String) (slash : Bool) : Prop where
  place : here ++ [name] = p.place
  busy : ¬ Path.isIdle name = true
  down : name ≠ ".."
  last : slash = false → p.pieces.getLast? = some name

theorem ends_of_locate {t : Tree} {p : Path} {here : Location} {name : String} {slash : Bool}
    (h : t.locate p = .ok (.entry here name slash)) : Ends p here name slash := by
  unfold locate at h
  split at h
  · cases h
  split at h
  · cases h
  split at h
  · cases h
  simp only at h
  split at h
  · cases h
  rename_i last hlast
  split at h
  · cases hwalk : t.walk [] (p.pieces.filter fun piece => piece ≠ "") with
    | error f =>
      rw [hwalk] at h
      cases h
    | ok there =>
      rw [hwalk] at h
      cases h
  rename_i hdots
  rw [Bool.or_eq_true, decide_eq_true_eq, decide_eq_true_eq, not_or] at hdots
  have hfull : last ≠ "" := by simpa using (List.mem_filter.mp (List.mem_of_getLast? hlast)).2
  have hbusy : ¬ Path.isIdle last = true := by simp [Path.isIdle, hfull, hdots.1]
  cases hwalk : t.walk [] (p.pieces.filter fun piece => piece ≠ "").dropLast with
  | error f =>
    rw [hwalk] at h
    cases h
  | ok there =>
    rw [hwalk] at h
    cases h
    refine ⟨?_, hbusy, hdots.2, fun hslash => ?_⟩
    · obtain ⟨rest, hrest⟩ := List.getLast?_eq_some_iff.mp hlast
      rw [Path.place, ← Path.resolve_filter, resolve_of_walk hwalk, hrest, List.dropLast_concat,
        Path.resolve_append, Path.resolve, if_neg hbusy, if_neg hdots.2, Path.resolve]
    · cases hend : p.pieces.getLast? with
      | none =>
        rw [List.getLast?_eq_none_iff] at hend
        simp [hend] at hlast
      | some x =>
        have hx : x ≠ "" := by simpa [hend] using hslash
        obtain ⟨rest, hrest⟩ := List.getLast?_eq_some_iff.mp hend
        rw [hrest, List.filter_append, List.filter_cons_of_pos (by simp [hx]), List.filter_nil,
          List.getLast?_concat] at hlast
        exact hlast

theorem Names.place_eq {t : Tree} {p : Path} {place : Location} (h : t.Names p place) :
    place = p.place := by
  obtain ⟨here, name, hlocate, -, hplace⟩ := h.entry
  exact hplace.trans (ends_of_locate hlocate).place

/-- A path that names a place ends in the name that the place has. -/
theorem Names.last {t : Tree} {p : Path} {place : Location} (h : t.Names p place) :
    ∃ name, p.pieces.getLast? = some name ∧ p.name = some name ∧ place.getLast? = some name := by
  obtain ⟨here, name, hlocate, -, hplace⟩ := h.entry
  have hends := ends_of_locate hlocate
  have hlast := hends.last rfl
  exact ⟨name, hlast, Path.name_of_getLast? hlast hends.busy hends.down, by
    rw [hplace, List.getLast?_concat]⟩

/-- A file beside another, with something added to its name, is at another place. -/
theorem Names.ne_withName {t t' : Tree} {p : Path} {place beside : Location} {ending : String}
    (hending : ending ≠ "") (hplain : '/' ∉ ending.toList) (h : t.Names p place)
    (h' : t'.Names (p.withName (p.name.getD "" ++ ending)) beside) : beside ≠ place := by
  rintro rfl
  obtain ⟨name, -, hname, hplace⟩ := h.last
  obtain ⟨name', hname', -, hplace'⟩ := h'.last
  obtain ⟨last, hlast, hne⟩ := Path.getLast?_ofText_append name hending hplain
  rw [hname, Option.getD_some, Path.getLast?_withName, hlast] at hname'
  rw [hplace] at hplace'
  exact hne ((Option.some.inj hname').trans (Option.some.inj hplace').symm)

/-! ## Directories that come -/

/-- Nothing has changed but that directories have come where nothing was, none deeper than this. -/
def AddsDirectories (depth : Nat) (t t' : Tree) : Prop :=
  ∀ loc, t'.lookup loc = t.lookup loc ∨
    t.lookup loc = none ∧ t'.lookup loc = some .directory ∧ loc.length ≤ depth

theorem AddsDirectories.lookup {depth : Nat} {t t' : Tree} (h : AddsDirectories depth t t')
    {loc : Location} {node : Node} (hnode : t.lookup loc = some node) : t'.lookup loc = some node := by
  rcases h loc with hsame | ⟨hnone, -, -⟩
  · exact hsame.trans hnode
  · rw [hnode] at hnone
    cases hnone

/-- Some places apart, nothing has changed but that directories have come where nothing was, at places of this
kind. -/
def Changes (apart : List Location) (come : Location → Prop) (t t' : Tree) : Prop :=
  ∀ loc ∉ apart, t'.lookup loc = t.lookup loc ∨
    t.lookup loc = none ∧ t'.lookup loc = some .directory ∧ come loc

namespace Changes
variable {apart apart' : List Location} {come come' : Location → Prop} {t t' t₁ t₂ t₃ : Tree}

theorem refl (apart : List Location) (come : Location → Prop) (t : Tree) : Changes apart come t t :=
  fun _ _ => .inl rfl

theorem trans (h : Changes apart come t₁ t₂) (h' : Changes apart come t₂ t₃) :
    Changes apart come t₁ t₃ := by
  intro loc hloc
  rcases h loc hloc, h' loc hloc with ⟨hsame | ⟨hnone, hdir, hcome⟩, hsame' | ⟨hnone', hdir', hcome'⟩⟩
  · exact .inl (hsame'.trans hsame)
  · exact .inr ⟨hsame ▸ hnone', hdir', hcome'⟩
  · exact .inr ⟨hnone, hsame'.trans hdir, hcome⟩
  · rw [hdir] at hnone'
    cases hnone'

theorem mono (h : Changes apart come t t') (hapart : apart ⊆ apart') (hcome : ∀ loc, come loc → come' loc) :
    Changes apart' come' t t' := by
  intro loc hloc
  rcases h loc fun hmem => hloc (hapart hmem) with hsame | ⟨hnone, hdir, hkind⟩
  · exact .inl hsame
  · exact .inr ⟨hnone, hdir, hcome loc hkind⟩

theorem set {place : Location} (hplace : place ≠ []) (hapart : place ∈ apart) (come : Location → Prop)
    (node : Node) (t : Tree) : Changes apart come t (t.set place node) := by
  intro loc hloc
  have hne : loc ≠ place := fun h => hloc (h ▸ hapart)
  exact .inl (by rw [Tree.lookup_set t hplace, if_neg hne])

end Changes

end Tree

namespace FileM

theorem changes_makeDir (p : Path) (t : Tree) : t.Changes [] p.Passes (makeDir p t).2 := by
  simp only [makeDir, bind_apply, get_apply]
  cases hlocate : t.locate p with
  | error f => exact .refl _ _ t
  | ok target =>
    cases target with
    | directory => exact .refl _ _ t
    | entry here name slash =>
      simp only
      split
      · exact .refl _ _ t
      · split
        · exact .refl _ _ t
        · rename_i hfree
          have hplace : here ++ [name] = p.place := (Tree.ends_of_locate hlocate).place
          intro loc _
          rw [set_apply, Tree.lookup_set t (by simp)]
          by_cases hloc : loc = here ++ [name]
          · refine .inr ⟨by simpa [hloc] using hfree, by rw [if_pos hloc], ?_⟩
            rw [hloc, hplace]
            exact .here p
          · exact .inl (by rw [if_neg hloc])

theorem changes_tryCatch {apart : List Location} {come : Location → Prop} {α : Type} {x : FileM α}
    {refused : Fault → FileM α} {t : Tree} (h : t.Changes apart come (x t).2)
    (hrefused : ∀ (f : Fault) (t : Tree), t.Changes apart come (refused f t).2) :
    t.Changes apart come ((tryCatch x refused) t).2 := by
  rw [tryCatch_apply]
  rcases hx : x t with ⟨f | a, t₁⟩
  · rw [hx] at h
    exact h.trans (hrefused f t₁)
  · rw [hx] at h
    exact h

theorem changes_acceptIfThere (p : Path) (f : Fault) (t : Tree) :
    t.Changes [] p.Passes (acceptIfThere p f t).2 := by
  simp only [acceptIfThere, bind_apply, get_apply]
  split <;> exact .refl _ _ t

theorem changes_makeDirsFrom (fuel : Nat) (p : Path) (t : Tree) :
    t.Changes [] p.Passes (makeDirsFrom fuel p t).2 := by
  induction fuel generalizing p t with
  | zero => exact .refl _ _ t
  | succ fuel ih =>
    cases hp : p.isEmpty with
    | true =>
      rw [makeDirsFrom, if_pos hp]
      exact .refl _ _ t
    | false =>
      rw [makeDirsFrom_succ hp]
      refine changes_tryCatch (changes_makeDir p t) fun f t₁ => ?_
      split
      · cases hparent : p.parent with
        | none => exact .refl _ _ t₁
        | some parent =>
          have habove : t₁.Changes [] p.Passes (makeDirsFrom fuel parent t₁).2 :=
            (ih parent t₁).mono (List.Subset.refl _) fun _ => .above hparent
          simp only [bind_apply]
          rcases hmade : makeDirsFrom fuel parent t₁ with ⟨f | ⟨⟨⟩⟩, t₂⟩
          · rw [hmade] at habove
            exact habove
          · rw [hmade] at habove
            exact habove.trans (changes_tryCatch (changes_makeDir p t₂) fun f t => changes_acceptIfThere p f t)
      · exact changes_acceptIfThere p f t₁

variable {p : Path} {t t' : Tree} {r : Except Fault Unit}

/-- Making a directory, whether it comes to be or not, does nothing but add directories on the way to it. -/
theorem changes_makeDirs (h : makeDirs p t = (r, t')) : t.Changes [] p.Passes t' := by
  have hchanges := changes_makeDirsFrom (p.pieces.length + 1) p t
  rw [← makeDirs, h] at hchanges
  exact hchanges

theorem adds_makeDirs (h : makeDirs p t = (r, t')) : t.AddsDirectories p.depth t' := by
  intro loc
  rcases changes_makeDirs h loc List.not_mem_nil with hsame | ⟨hnone, hdir, hpasses⟩
  · exact .inl hsame
  · exact .inr ⟨hnone, hdir, hpasses.length_le⟩

end FileM

end ExpiringCache.Files
