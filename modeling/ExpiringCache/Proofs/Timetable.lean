import ExpiringCache.Proofs.Chronicle
import Mathlib.Data.List.DropRight
import Mathlib.Data.List.Induction

/-!
When snapshots are saved. Main statement: as long as no shutdown is asked for, and no change is signalled at
the very moment of a copy, a copy is taken whenever a change has been signalled since the one before, and
exactly the set time after that change or after the end of the save before, whichever is later. It has what
is held at that moment.
-/
namespace ExpiringCache
set_option autoImplicit false

variable {K V : Type} [DecidableEq K]

/-! ## Since the latest copy -/

namespace Chronicle

omit [DecidableEq K]

def sinceCopy (c : Chronicle K V) : Chronicle K V := c.rtakeWhile fun x => x.copy?.isNone

/-- When something first happened since the latest copy. -/
def first? (p : Stage K V → Bool) (c : Chronicle K V) : Option Nat :=
  (c.sinceCopy.find? p).map Stage.time

/-- When the save of the latest copy ended; before the first copy, when the load did. -/
def ended? (c : Chronicle K V) : Option Nat := c.first? Stage.ends

/-- When a change was first signalled since the latest copy. -/
def signalled? (c : Chronicle K V) : Option Nat := c.first? Stage.signalled

def copies (c : Chronicle K V) : List (List (Entry K V)) := c.filterMap Stage.copy?

/-- The next copy falls at this time: so long after the first change that was signalled, or after the end of
the save before. -/
def Books (c : Chronicle K V) (frequency time : Nat) : Prop :=
  ∃ e t, c.ended? = some e ∧ c.signalled? = some t ∧ time = max e t + frequency

/-- No change is signalled at the very moment of a copy. -/
def Apart (c : Chronicle K V) : Prop :=
  ∀ x ∈ c, x.signalled = true → ∀ y ∈ c, y.copy?.isSome = true → x.time ≠ y.time

theorem copies_singleton {x : Stage K V} (h : x.copy? = none) : copies [x] = [] := by
  simp [copies, h]

theorem sinceCopy_copied {c : Chronicle K V} {x : Stage K V} (h : x.copy?.isSome = true) :
    (c ++ [x]).sinceCopy = [] :=
  List.rtakeWhile_concat_neg _ c x (by simpa [Option.isSome_iff_ne_none] using h)

theorem sinceCopy_concat {c : Chronicle K V} {x : Stage K V} (h : x.copy? = none) :
    (c ++ [x]).sinceCopy = c.sinceCopy ++ [x] :=
  List.rtakeWhile_concat_pos _ c x (by simp [h])

theorem first?_copied {p : Stage K V → Bool} {c : Chronicle K V} {x : Stage K V}
    (h : x.copy?.isSome = true) : (c ++ [x]).first? p = none := by
  rw [first?, sinceCopy_copied h]
  rfl

theorem first?_concat {p : Stage K V → Bool} {c : Chronicle K V} {x : Stage K V}
    (h : x.copy? = none) : (c ++ [x]).first? p = (c.first? p).or (if p x then some x.time else none) := by
  rw [first?, sinceCopy_concat h, List.find?_append, Option.map_or]
  cases hp : p x <;> simp [first?, hp]

theorem first?_skip {p : Stage K V → Bool} {c : Chronicle K V} {x : Stage K V} (h : x.copy? = none)
    (hp : p x = false) : (c ++ [x]).first? p = c.first? p := by
  simp [first?_concat h, hp]

theorem first?_found {p : Stage K V → Bool} {c : Chronicle K V} {x : Stage K V} (h : x.copy? = none)
    (hc : c.first? p = none) (hp : p x = true) : (c ++ [x]).first? p = some x.time := by
  simp [first?_concat h, hc, hp]

theorem first?_append {p : Stage K V → Bool} {c d : Chronicle K V} (h : d.copies = []) :
    (c ++ d).first? p = (c.first? p).or ((d.find? p).map Stage.time) := by
  induction d using List.reverseRecOn with
  | nil => simp
  | append_singleton d x ih =>
    rw [copies, List.filterMap_append, List.append_eq_nil_iff] at h
    have hx : x.copy? = none := by simpa using h.2
    rw [← List.append_assoc, first?_concat hx, ih h.1, Option.or_assoc, List.find?_append, Option.map_or]
    cases hp : p x <;> simp [hp]

theorem mem_of_first? {p : Stage K V → Bool} {c : Chronicle K V} {t : Nat} (h : c.first? p = some t) :
    ∃ x ∈ c, p x = true ∧ x.time = t := by
  obtain ⟨x, hx, rfl⟩ := Option.map_eq_some_iff.mp h
  exact ⟨x, (List.rtakeWhile_suffix _ _).subset (List.mem_of_find?_eq_some hx), List.find?_some hx, rfl⟩

theorem Books.append {c d : Chronicle K V} {frequency time : Nat} (h : c.Books frequency time)
    (hd : d.copies = []) : (c ++ d).Books frequency time := by
  obtain ⟨e, t, hended, hsignalled, htime⟩ := h
  refine ⟨e, t, ?_, ?_, htime⟩
  · rw [ended?, first?_append hd, show c.first? Stage.ends = some e from hended, Option.some_or]
  · rw [signalled?, first?_append hd, show c.first? Stage.signalled = some t from hsignalled,
      Option.some_or]

theorem Books.unique {c : Chronicle K V} {frequency time time' : Nat} (h : c.Books frequency time)
    (h' : c.Books frequency time') : time = time' := by
  obtain ⟨e, t, hended, hsignalled, rfl⟩ := h
  obtain ⟨e', t', hended', hsignalled', rfl⟩ := h'
  cases hended.symm.trans hended'
  cases hsignalled.symm.trans hsignalled'
  rfl

/-- A stretch of a chronicle is without copies, or has a first one. -/
theorem exists_first_copy (d : Chronicle K V) :
    d.copies = [] ∨ ∃ early copied late entries, d = early ++ copied :: late ∧ copies early = [] ∧
      copied.copy? = some entries := by
  induction d with
  | nil => exact .inl rfl
  | cons x d ih =>
    cases hcopy : x.copy? with
    | some entries => exact .inr ⟨[], x, d, entries, rfl, rfl, hcopy⟩
    | none =>
      rcases ih with hnone | ⟨early, copied, late, entries, rfl, hearly, hcopied⟩
      · exact .inl (by rw [copies, List.filterMap_cons_none hcopy]; exact hnone)
      · refine .inr ⟨x :: early, copied, late, entries, rfl, ?_, hcopied⟩
        rw [copies, List.filterMap_cons_none hcopy]
        exact hearly

theorem apart_of_times {c : Chronicle K V} {signalled copied : List Nat}
    (hsignalled : (c.filter Stage.signalled).map Stage.time = signalled)
    (hcopied : (c.filter fun x => x.copy?.isSome).map Stage.time = copied)
    (hdisjoint : ∀ t ∈ signalled, t ∉ copied) : c.Apart := by
  intro x hx hxs y hy hyc htime
  have hleft : x.time ∈ signalled := hsignalled ▸ List.mem_map_of_mem (List.mem_filter.mpr ⟨hx, hxs⟩)
  have hright : y.time ∈ copied := hcopied ▸ List.mem_map_of_mem (List.mem_filter.mpr ⟨hy, hyc⟩)
  exact hdisjoint x.time hleft (htime ▸ hright)

theorem Apart.silent {c : Chronicle K V} {x y : Stage K V} (h : c.Apart) (hx : x ∈ c) (hy : y ∈ c)
    (hcopy : y.copy?.isSome = true) (htime : x.time = y.time) : x.signalled = false :=
  Bool.eq_false_iff.mpr fun hsignalled => h x hx hsignalled y hy hcopy htime

theorem Apart.left {c d : Chronicle K V} (h : (c ++ d).Apart) : c.Apart := fun x hx hsignalled y hy =>
  h x (List.mem_append_left d hx) hsignalled y (List.mem_append_left d hy)

end Chronicle

/-! ## Steps -/

namespace Manager
variable {m m' : Manager K V} {occs : Journal K V} {now : Nat}

theorem Moves.running (h : Moves m m' occs) (hrunning : m'.cancelled = false) : m.cancelled = false := by
  cases h with
  | cancel => cases hrunning
  | load | act | wake | elapse | mark | save | skip | finish | record | drain | announceDraining
  | announceClosed => exact hrunning

theorem Moves.at_copy (h : Moves m m' occs) {entries : List (Entry K V)}
    (hcopy : (m.stage now occs m').copy? = some entries) :
    (∃ last, m.phase = .copying last) ∧ m.contents.entries = entries ∧ m'.contents = m.contents := by
  cases h with
  | save last hphase => exact ⟨⟨last, hphase⟩, Option.some.inj hcopy, rfl⟩
  | load | act | cancel | wake | elapse | mark | skip | finish | record | drain | announceDraining
  | announceClosed => cases hcopy

theorem Moves.at_load (h : Moves m m' occs) (hloads : (m.stage now occs m').loads = true) :
    m.phase = .loading := by
  cases h with
  | load snapshot reading hphase => exact hphase
  | act | cancel | wake | elapse | mark | save | skip | finish | record | drain | announceDraining
  | announceClosed => cases hloads

/-- A step that neither loads nor signals a change leaves what is held as it is. -/
theorem Moves.still (h : Moves m m' occs) (hloads : (m.stage now occs m').loads = false)
    (hsilent : (m.stage now occs m').signalled = false) :
    m'.contents.entries = m.contents.entries := by
  cases h with
  | load => cases hloads
  | act action =>
    have hquiet : (m.contents.apply m.policy action).signalled = false := by
      simpa [stage, Occurrence.signals, perform] using hsilent
    exact congrArg Store.entries (Contents.store_of_unsignalled hquiet)
  | cancel | wake | elapse | mark | save | skip | finish | record | drain | announceDraining
  | announceClosed => rfl

end Manager

namespace Scheduled

theorem due_waking {s : Scheduled K V} {m' : Manager K V} {step : Step K V} (now duration : Nat)
    (h : s.manager.step? step = some m') (hbefore : s.manager.phase = .idle)
    (hafter : m'.phase = .debouncing) :
    (s.after now duration step m').due = now + s.frequency := by
  cases step with
  | wake => rfl
  | act | cancel =>
    simp only [Manager.step?, hbefore] at h
    cases h
    simp [Manager.accept, hbefore] at hafter
  | drain =>
    simp only [Manager.step?, hbefore] at h
    split at h <;> cases h
    cases hafter
  | load | elapse | mark | copy | finish | record | announce => simp [Manager.step?, hbefore] at h

theorem due_debouncing {s : Scheduled K V} {m' : Manager K V} {step : Step K V} (now duration : Nat)
    (h : s.manager.step? step = some m') (hbefore : s.manager.phase = .debouncing) :
    (s.after now duration step m').due = s.due := by
  cases step with
  | wake => simp [Manager.step?, hbefore] at h
  | copy => simp [Manager.step?, hbefore] at h
  | _ => rfl

theorem due_elapsing {s : Scheduled K V} {m' : Manager K V} {step : Step K V} {now : Nat}
    (h : s.manager.step? step = some m') (hbefore : s.manager.phase = .debouncing)
    (hafter : m'.phase = .marking) (turn : ∀ move, step.move? = some move → s.next now = some move) :
    s.due ≤ now := by
  cases step with
  | elapse =>
    have hnext := turn .elapse rfl
    simp only [next, hbefore] at hnext
    split at hnext
    · cases hnext
    · split at hnext
      · assumption
      · cases hnext
  | act | cancel =>
    simp only [Manager.step?, hbefore] at h
    cases h
    simp [Manager.accept, hbefore] at hafter
  | drain =>
    simp only [Manager.step?, hbefore] at h
    split at h <;> cases h
    cases hafter
  | load | wake | mark | copy | finish | record | announce => simp [Manager.step?, hbefore] at h

/-! ## The pace of the work -/

/-- What is known of the times so far, by how far the work is. Signals that are not seen yet are those since
the latest copy, except between waking up and copying: what is signalled then is seen to by the copy to come,
and if it comes after the mark, at the moment of the copy. -/
def Pace (frequency now : Nat) (c : Chronicle K V) (s : Scheduled K V) : Prop :=
  match s.manager.phase with
  | .loading => c = [] ∧ s.manager.unseen = false
  | .idle =>
    ∃ e, c.ended? = some e ∧ s.manager.unseen = c.signalled?.isSome ∧
      ∀ t, c.signalled? = some t → now = max e t
  | .debouncing => c.Books frequency s.due ∧ now ≤ s.due
  | .marking => c.Books frequency now
  | .copying last =>
    last = false ∧ c.Books frequency now ∧
      (s.manager.unseen = true → ∃ x ∈ c, x.signalled = true ∧ x.time = now)
  | .saving last _ =>
    last = false ∧ c.ended? = none ∧ s.manager.unseen = c.signalled?.isSome
  | .recording last _ =>
    last = false ∧ c.ended? = some now ∧ s.manager.unseen = c.signalled?.isSome
  | .stopping | .finished | .closed => False

section
variable {f now : Nat} {c : Chronicle K V} {s : Scheduled K V}

/-- An operation signals a change or does not; either way the work is where it was. -/
theorem Pace.act (h : s.Pace f now c) (hpast : ∀ x ∈ c, x.time ≤ now) (action : Action K V)
    (hloaded : s.manager.phase ≠ .loading) (due : Nat)
    (hdue : s.manager.phase = .debouncing → due = s.due) :
    { s with manager := s.manager.accept (s.manager.perform action), due }.Pace f now
      (c ++ [s.manager.stage now [.performed action (s.manager.perform action).value]
        (s.manager.accept (s.manager.perform action))]) := by
  generalize hx : s.manager.stage now [.performed action (s.manager.perform action).value]
    (s.manager.accept (s.manager.perform action)) = x
  have hcopy : x.copy? = none := by rw [← hx]; rfl
  have hends : x.ends = false := by rw [← hx]; rfl
  have htime : x.time = now := by rw [← hx]; rfl
  have hsignal : x.signalled = (s.manager.perform action).signalled := by
    rw [← hx]
    simp [Manager.stage, Occurrence.signals]
  have hended : (c ++ [x]).ended? = c.ended? := Chronicle.first?_skip hcopy hends
  have hsignalled : (c ++ [x]).signalled? =
      c.signalled?.or (if (s.manager.perform action).signalled then some now else none) := by
    simp [Chronicle.signalled?, Chronicle.first?_concat hcopy, hsignal, htime]
  have hunseen : s.manager.unseen = c.signalled?.isSome →
      (s.manager.accept (s.manager.perform action)).unseen = (c ++ [x]).signalled?.isSome := by
    intro hbefore
    rw [hsignalled, Option.isSome_or, Manager.accept, hbefore]
    cases (s.manager.perform action).signalled <;> rfl
  unfold Pace at h ⊢
  simp only [Manager.accept] at hunseen ⊢
  cases hphase : s.manager.phase with
  | loading => exact absurd hphase hloaded
  | idle =>
    simp only [hphase] at h
    obtain ⟨e, he, hseen, hwoken⟩ := h
    refine ⟨e, hended.trans he, hunseen hseen, fun t ht => ?_⟩
    rw [hsignalled, Option.or_eq_some_iff] at ht
    rcases ht with ht | ⟨-, ht⟩
    · exact hwoken t ht
    · obtain ⟨y, hy, -, rfl⟩ := Chronicle.mem_of_first? he
      have hle := hpast y hy
      split at ht <;> cases ht
      omega
  | debouncing =>
    simp only [hphase] at h
    rw [hdue hphase]
    exact ⟨h.1.append (Chronicle.copies_singleton hcopy), h.2⟩
  | marking =>
    simp only [hphase] at h
    exact h.append (Chronicle.copies_singleton hcopy)
  | copying last =>
    simp only [hphase] at h
    obtain ⟨hlast, hbooks, hstirred⟩ := h
    refine ⟨hlast, hbooks.append (Chronicle.copies_singleton hcopy), fun hsome => ?_⟩
    rcases (Bool.or_eq_true _ _).mp hsome with hbefore | hnew
    · obtain ⟨y, hy, hys, hyt⟩ := hstirred hbefore
      exact ⟨y, List.mem_append_left _ hy, hys, hyt⟩
    · exact ⟨x, by simp, hsignal.trans hnew, htime⟩
  | saving last copy =>
    simp only [hphase] at h
    exact ⟨h.1, hended.trans h.2.1, hunseen h.2.2⟩
  | recording last succeeded =>
    simp only [hphase] at h
    exact ⟨h.1, hended.trans h.2.1, hunseen h.2.2⟩
  | stopping | finished | closed =>
    simp only [hphase] at h

theorem Pace.moves {step : Step K V} {m' : Manager K V} {duration : Nat} (h : s.Pace f now c)
    (hpersistent : s.manager.persistent = true) (hfrequency : s.frequency = f)
    (hpast : ∀ x ∈ c, x.time ≤ now) (hrunning : m'.cancelled = false)
    (turn : ∀ move, step.move? = some move → s.next now = some move)
    (possible : s.manager.step? step = some m')
    (hapart : (c ++ [s.manager.stage now (s.manager.occurrences step m') m']).Apart) :
    (s.after now duration step m').Pace f now
      (c ++ [s.manager.stage now (s.manager.occurrences step m') m']) := by
  have hmoves := Manager.moves_of_step? possible
  have hwaking := due_waking now duration possible
  have hkept := due_debouncing now duration possible
  have helapsing := fun hbefore hafter => due_elapsing possible hbefore hafter turn
  have hafter : s.after now duration step m' =
      { s with manager := m', due := (s.after now duration step m').due } := rfl
  rw [hafter]
  generalize (s.after now duration step m').due = due at *
  generalize s.manager.occurrences step m' = occs at *
  cases hmoves with
  | load snapshot reading hphase =>
    simp only [Pace, hphase] at h
    obtain ⟨rfl, hunseen⟩ := h
    simp only [Pace]
    refine ⟨now, Chronicle.first?_found rfl rfl rfl, ?_, fun t ht => ?_⟩
    · have hnone : Chronicle.first? Stage.signalled ([] : Chronicle K V) = none := rfl
      rw [Chronicle.signalled?, Chronicle.first?_concat rfl, hnone]
      simp only [Manager.accept, Manager.stage, Occurrence.signals, List.any_cons, List.any_nil,
        Bool.or_false, Option.none_or, hunseen, Bool.false_or]
      cases (Contents.load s.manager.policy reading snapshot).signalled <;> rfl
    · obtain ⟨y, hy, -, rfl⟩ := Chronicle.mem_of_first? ht
      rw [List.nil_append, List.mem_singleton] at hy
      rw [hy]
      exact (Nat.max_self now).symm
  | act action hloaded => exact h.act hpast action hloaded due hkept
  | cancel => cases hrunning
  | wake hphase _ hunseen =>
    simp only [Pace, hphase] at h ⊢
    obtain ⟨e, he, hseen, hwoken⟩ := h
    obtain ⟨t, ht⟩ := Option.isSome_iff_exists.mp (hseen.symm.trans hunseen)
    have hdue : due = max e t + f := by
      rw [hwaking hphase rfl, hfrequency, ← hwoken t ht]
    have hbooks : c.Books f due := ⟨e, t, he, ht, hdue⟩
    have hnow := hwoken t ht
    exact ⟨hbooks.append rfl, by omega⟩
  | elapse hphase =>
    simp only [Pace, hphase] at h ⊢
    have hnow : now = s.due := Nat.le_antisymm h.2 (helapsing hphase rfl)
    have hbooks : c.Books f now := hnow ▸ h.1
    exact hbooks.append rfl
  | mark hphase =>
    simp only [Pace, hphase] at h ⊢
    exact ⟨trivial, h.append rfl, fun hsome => by cases hsome⟩
  | save last hphase =>
    simp only [Pace, hphase] at h ⊢
    obtain ⟨hlast, -, hstirred⟩ := h
    -- a signal after the mark would be one at the moment of this copy
    have hquiet : s.manager.unseen = false := by
      refine Bool.eq_false_iff.mpr fun hsome => ?_
      obtain ⟨y, hy, hysignalled, hytime⟩ := hstirred hsome
      exact hapart y (List.mem_append_left _ hy) hysignalled _
        (List.mem_append_right c (List.mem_singleton.mpr rfl)) rfl hytime
    refine ⟨hlast, Chronicle.first?_copied rfl, ?_⟩
    rw [hquiet, Chronicle.signalled?, Chronicle.first?_copied rfl]
    rfl
  | skip last hphase hunkept => simp [hpersistent] at hunkept
  | finish last copy succeeded hphase =>
    simp only [Pace, hphase] at h ⊢
    obtain ⟨hlast, hended, hseen⟩ := h
    refine ⟨hlast, Chronicle.first?_found rfl hended rfl, ?_⟩
    rw [hseen, Chronicle.signalled?, Chronicle.signalled?, Chronicle.first?_skip rfl rfl]
  | record last succeeded hphase =>
    simp only [Pace, hphase] at h
    obtain ⟨rfl, hended, hseen⟩ := h
    refine ⟨now, (Chronicle.first?_skip rfl rfl).trans hended, ?_, fun t ht => ?_⟩
    · rw [hseen, Chronicle.signalled?, Chronicle.signalled?, Chronicle.first?_skip rfl rfl]
    · rw [Chronicle.signalled?, Chronicle.first?_skip rfl rfl] at ht
      obtain ⟨y, hy, -, rfl⟩ := Chronicle.mem_of_first? ht
      exact (Nat.max_eq_left (hpast y hy)).symm
  | drain hwait hcancelled => simp [hcancelled] at hrunning
  | announceDraining hphase => simp [Pace, hphase] at h
  | announceClosed hphase => simp [Pace, hphase] at h

omit [DecidableEq K] in
/-- Time passes only while there is no copy that is late. -/
theorem Pace.pass {later : Nat} (h : s.Pace f now c) (hpersistent : s.manager.persistent = true)
    (hrunning : s.manager.cancelled = false) (waits : s.next now = none)
    (bounded : ∀ alarm, s.alarm = some alarm → later ≤ alarm) : s.Pace f later c := by
  unfold Pace at h ⊢
  unfold next at waits
  cases hphase : s.manager.phase with
  | loading | saving => simpa only [hphase] using h
  | idle =>
    simp only [hphase, hpersistent, hrunning] at h waits
    obtain ⟨e, he, hseen, -⟩ := h
    have hquiet : s.manager.unseen = false := by
      cases hunseen : s.manager.unseen with
      | false => rfl
      | true => simp [hunseen] at waits
    refine ⟨e, he, hseen, fun t ht => ?_⟩
    simp [ht, hquiet] at hseen
  | debouncing =>
    simp only [hphase] at h
    exact ⟨h.1, bounded s.due (by simp [alarm, hphase])⟩
  | marking | copying | recording | stopping | finished => simp [hphase] at waits
  | closed => simp [hphase] at h

omit [DecidableEq K] in
/-- A copy that is booked is taken in time: at rest, its time has not come. -/
theorem Pace.lt_of_books {time : Nat} (h : s.Pace f now c) (hpersistent : s.manager.persistent = true)
    (hrunning : s.manager.cancelled = false) (waits : s.next now = none) (hbooks : c.Books f time) :
    now < time := by
  obtain ⟨e, t, hended, hsignalled, htime⟩ := hbooks
  unfold Pace at h
  unfold next at waits
  cases hphase : s.manager.phase with
  | loading =>
    simp only [hphase] at h
    rw [h.1] at hended
    cases hended
  | idle =>
    simp only [hphase, hpersistent, hrunning] at h waits
    obtain ⟨-, -, hseen, -⟩ := h
    simp [hsignalled] at hseen
    simp [hseen] at waits
  | debouncing =>
    simp only [hphase, hrunning] at h waits
    obtain ⟨⟨e', t', hended', hsignalled', hdue⟩, -⟩ := h
    cases hended.symm.trans hended'
    cases hsignalled.symm.trans hsignalled'
    have hlate : ¬ s.due ≤ now := by simpa using waits
    omega
  | saving last copy =>
    simp only [hphase] at h
    cases hended.symm.trans h.2.1
  | marking | copying | recording | stopping | finished => simp [hphase] at waits
  | closed => simp [hphase] at h

end

end Scheduled

/-! ## The chronicle so far -/

namespace Chronicle

omit [DecidableEq K]

/-- What a chronicle up to `now` tells, when `held` is what is held now. -/
structure Told (f now : Nat) (held : List (Entry K V)) (c : Chronicle K V) : Prop where
  sorted : c.Pairwise fun x y => x.time ≤ y.time
  past : ∀ x ∈ c, x.time ≤ now
  /-- nothing is signalled before the load -/
  loaded : ∀ t, c.signalled? = some t → ∀ x ∈ c, x.loads = true → x.time ≤ t
  /-- what was held at this moment is held still, unless something has stirred it since -/
  level : ∀ x ∈ c, x.time = now → x.entries = held ∨
    ∃ y ∈ c, y.time = now ∧ (y.signalled = true ∨ y.loads = true)
  rest : c.signalled? = none → ∀ entries, c.copies.getLast? = some entries → held = entries
  saves : ∀ (before after : Chronicle K V) copied entries, c = before ++ copied :: after →
    copied.copy? = some entries → before.Books f copied.time ∧
      ∀ x ∈ c, x.time = copied.time → x.loads = false ∧ x.entries = entries

/-- A step at `now` that finds one list of entries held and leaves another. -/
structure Adds (f now : Nat) (held left : List (Entry K V)) (c : Chronicle K V) (x : Stage K V) :
    Prop where
  time : x.time = now
  entries : x.entries = left
  first : x.loads = true → c = []
  still : x.loads = false → x.signalled = false → left = held
  copies : ∀ entries, x.copy? = some entries →
    c.Books f now ∧ x.loads = false ∧ held = entries ∧ left = entries

section
variable {f now : Nat} {held left : List (Entry K V)} {c : Chronicle K V} {x : Stage K V}

theorem Told.pass {later : Nat} (h : c.Told f now held) (forward : now ≤ later) :
    c.Told f later held where
  sorted := h.sorted
  past x hx := (h.past x hx).trans forward
  loaded := h.loaded
  level x hx htime := by
    have hnow : now = later := Nat.le_antisymm forward (htime ▸ h.past x hx)
    subst hnow
    exact h.level x hx htime
  rest := h.rest
  saves := h.saves

theorem Told.loads_le (h : c.Told f now held) (hadds : c.Adds f now held left x) {t : Nat}
    (ht : (c ++ [x]).signalled? = some t) {y : Stage K V} (hy : y ∈ c ++ [x])
    (hloads : y.loads = true) : y.time ≤ t := by
  have hpast : y.time ≤ now := by
    rcases List.mem_append.mp hy with hy | hy
    · exact h.past y hy
    · rw [List.mem_singleton.mp hy, hadds.time]
  cases hcopy : x.copy? with
  | some entries =>
    rw [signalled?, first?_copied (by simp [hcopy])] at ht
    cases ht
  | none =>
    rw [signalled?, first?_concat hcopy, Option.or_eq_some_iff] at ht
    rcases ht with ht | ⟨-, ht⟩
    · rcases List.mem_append.mp hy with hy | hy
      · exact h.loaded t ht y hy hloads
      · rw [hadds.first (List.mem_singleton.mp hy ▸ hloads)] at ht
        cases ht
    · split at ht <;> cases ht
      rw [hadds.time]
      exact hpast

theorem Told.level_concat (h : c.Told f now held) (hadds : c.Adds f now held left x) {y : Stage K V}
    (hy : y ∈ c ++ [x]) (hnow : y.time = now) :
    y.entries = left ∨ ∃ z ∈ c ++ [x], z.time = now ∧ (z.signalled = true ∨ z.loads = true) := by
  by_cases hstirs : x.signalled = true ∨ x.loads = true
  · exact .inr ⟨x, by simp, hadds.time, hstirs⟩
  rw [not_or, Bool.not_eq_true, Bool.not_eq_true] at hstirs
  have hsame := hadds.still hstirs.2 hstirs.1
  rcases List.mem_append.mp hy with hy | hy
  · rcases h.level y hy hnow with hlevel | ⟨z, hz, hztime, hzstirs⟩
    · exact .inl (hlevel.trans hsame.symm)
    · exact .inr ⟨z, List.mem_append_left _ hz, hztime, hzstirs⟩
  · rw [List.mem_singleton.mp hy]
    exact .inl hadds.entries

theorem Told.rest_concat (h : c.Told f now held) (hadds : c.Adds f now held left x)
    (hquiet : (c ++ [x]).signalled? = none) {entries : List (Entry K V)}
    (hlast : (c ++ [x]).copies.getLast? = some entries) : left = entries := by
  rw [copies, List.filterMap_append] at hlast
  cases hcopy : x.copy? with
  | some copy =>
    have hcopies : [x].filterMap Stage.copy? = [copy] := by simp [hcopy]
    rw [hcopies, List.getLast?_concat] at hlast
    obtain ⟨-, -, -, hleft⟩ := hadds.copies copy hcopy
    exact hleft.trans (Option.some.inj hlast)
  | none =>
    have hcopies : [x].filterMap Stage.copy? = [] := by simp [hcopy]
    rw [hcopies, List.append_nil] at hlast
    rw [signalled?, first?_concat hcopy, Option.or_eq_none_iff] at hquiet
    have hsilent : x.signalled = false := by simpa using hquiet.2
    have hloads : x.loads = false := by
      refine Bool.eq_false_iff.mpr fun hloads => ?_
      rw [hadds.first hloads] at hlast
      cases hlast
    rw [hadds.still hloads hsilent]
    exact h.rest hquiet.1 entries hlast

/-- What is held at a moment at which nothing stirs. -/
theorem Told.held_at (h : c.Told f now held)
    (hquiet : ∀ y ∈ c, y.time = now → y.loads = false ∧ y.signalled = false) {y : Stage K V}
    (hy : y ∈ c) (hnow : y.time = now) : y.entries = held := by
  rcases h.level y hy hnow with hlevel | ⟨z, hz, hztime, hstirs⟩
  · exact hlevel
  · obtain ⟨hloads, hsilent⟩ := hquiet z hz hztime
    simp [hloads, hsilent] at hstirs

/-- A copy is taken at a moment at which nothing stirs: the change that it answers came no sooner than the
load, and not at that moment. -/
theorem Told.quiet_at_copy (h : c.Told f now held) (hbooks : c.Books f now)
    (hx : x.copy?.isSome = true) (htime : x.time = now) (hapart : (c ++ [x]).Apart) :
    ∀ y ∈ c, y.time = now → y.loads = false ∧ y.signalled = false := by
  intro y hy hnow
  have hmem : x ∈ c ++ [x] := List.mem_append_right c (List.mem_singleton.mpr rfl)
  refine ⟨Bool.eq_false_iff.mpr fun hloads => ?_,
    hapart.silent (List.mem_append_left _ hy) hmem hx (hnow.trans htime.symm)⟩
  obtain ⟨-, t, -, ht, -⟩ := hbooks
  have hle := h.loaded t ht y hy hloads
  obtain ⟨z, hz, hsignalled, rfl⟩ := mem_of_first? ht
  have hpast := h.past z hz
  exact hapart z (List.mem_append_left _ hz) hsignalled x hmem hx (by omega)

theorem Told.saves_last (h : c.Told f now held) (hadds : c.Adds f now held left x)
    (hapart : (c ++ [x]).Apart) {entries : List (Entry K V)} (hcopy : x.copy? = some entries) :
    c.Books f x.time ∧ ∀ y ∈ c ++ [x], y.time = x.time → y.loads = false ∧ y.entries = entries := by
  obtain ⟨hbooks, hloads, hheld, hleft⟩ := hadds.copies entries hcopy
  have hquiet := h.quiet_at_copy hbooks (by simp [hcopy]) hadds.time hapart
  rw [hadds.time]
  refine ⟨hbooks, fun y hy hnow => ?_⟩
  rcases List.mem_append.mp hy with hy | hy
  · exact ⟨(hquiet y hy hnow).1, (h.held_at hquiet hy hnow).trans hheld⟩
  · rw [List.mem_singleton.mp hy]
    exact ⟨hloads, hadds.entries.trans hleft⟩

/-- A step at the moment of an earlier copy leaves what was copied. -/
theorem Told.saves_earlier (h : c.Told f now held) (hadds : c.Adds f now held left x)
    (hapart : (c ++ [x]).Apart) {copied : Stage K V} {entries : List (Entry K V)} (hcopied : copied ∈ c)
    (hcopy : copied.copy?.isSome = true)
    (hsame : ∀ y ∈ c, y.time = copied.time → y.loads = false ∧ y.entries = entries)
    (htime : x.time = copied.time) : x.loads = false ∧ x.entries = entries := by
  have hmem := List.mem_append_left [x] hcopied
  have hnow : copied.time = now := htime.symm.trans hadds.time
  have hquiet : ∀ y ∈ c, y.time = now → y.loads = false ∧ y.signalled = false := fun y hy hy' =>
    ⟨(hsame y hy (hy'.trans hnow.symm)).1,
      hapart.silent (List.mem_append_left _ hy) hmem hcopy (hy'.trans hnow.symm)⟩
  have hloads : x.loads = false := by
    refine Bool.eq_false_iff.mpr fun hloads => ?_
    rw [hadds.first hloads] at hcopied
    cases hcopied
  have hsilent : x.signalled = false :=
    hapart.silent (List.mem_append_right c (List.mem_singleton.mpr rfl)) hmem hcopy htime
  refine ⟨hloads, ?_⟩
  rw [hadds.entries, hadds.still hloads hsilent, ← h.held_at hquiet hcopied hnow]
  exact (hsame copied hcopied rfl).2

theorem Told.saves_concat (h : c.Told f now held) (hadds : c.Adds f now held left x)
    (hapart : (c ++ [x]).Apart) {before after : Chronicle K V} {copied : Stage K V}
    {entries : List (Entry K V)} (hc : c ++ [x] = before ++ copied :: after)
    (hcopy : copied.copy? = some entries) : before.Books f copied.time ∧
      ∀ y ∈ c ++ [x], y.time = copied.time → y.loads = false ∧ y.entries = entries := by
  rcases split_concat hc with ⟨-, rfl, rfl⟩ | ⟨after, -, hbefore⟩
  · exact h.saves_last hadds hapart hcopy
  · obtain ⟨hbooks, hsame⟩ := h.saves before after copied entries hbefore hcopy
    refine ⟨hbooks, fun y hy hnow => ?_⟩
    rcases List.mem_append.mp hy with hy | hy
    · exact hsame y hy hnow
    · rw [List.mem_singleton.mp hy] at hnow ⊢
      exact h.saves_earlier hadds hapart (by simp [hbefore]) (by simp [hcopy]) hsame hnow

theorem Told.concat (h : c.Told f now held) (hadds : c.Adds f now held left x)
    (hapart : (c ++ [x]).Apart) : (c ++ [x]).Told f now left where
  sorted := by
    rw [List.pairwise_append]
    refine ⟨h.sorted, List.pairwise_singleton _ x, fun y hy z hz => ?_⟩
    rw [List.mem_singleton.mp hz, hadds.time]
    exact h.past y hy
  past y hy := by
    rcases List.mem_append.mp hy with hy | hy
    · exact h.past y hy
    · rw [List.mem_singleton.mp hy, hadds.time]
  loaded _ ht _ hy hloads := h.loads_le hadds ht hy hloads
  level _ hy hnow := h.level_concat hadds hy hnow
  rest hquiet _ hlast := h.rest_concat hadds hquiet hlast
  saves _ _ _ _ hc hcopy := h.saves_concat hadds hapart hc hcopy

end

end Chronicle

/-! ## The whole timetable -/

namespace Scheduled

/-- What every moment of a run preserves, as long as no shutdown is asked for. -/
structure Kept (f now : Nat) (c : Chronicle K V) (s : Scheduled K V) : Prop where
  persistent : s.manager.persistent = true
  frequency : s.frequency = f
  told : c.Told f now s.manager.contents.entries
  pace : s.Pace f now c

section
variable {f now : Nat} {c : Chronicle K V} {s : Scheduled K V}

theorem Kept.adds (h : s.Kept f now c) {m' : Manager K V} {occs : Journal K V}
    (hmoves : Manager.Moves s.manager m' occs) :
    c.Adds f now s.manager.contents.entries m'.contents.entries (s.manager.stage now occs m') where
  time := rfl
  entries := rfl
  first hloads := by
    have hpace := h.pace
    simp only [Pace, hmoves.at_load hloads] at hpace
    exact hpace.1
  still hloads hsilent := hmoves.still hloads hsilent
  copies entries hcopy := by
    obtain ⟨⟨last, hphase⟩, hheld, hsame⟩ := hmoves.at_copy hcopy
    have hpace := h.pace
    simp only [Pace, hphase] at hpace
    refine ⟨hpace.2.1, Bool.eq_false_iff.mpr fun hloads => ?_, hheld, by rw [hsame, hheld]⟩
    rw [hmoves.at_load hloads] at hphase
    cases hphase

omit [DecidableEq K] in
theorem told_nil (f now : Nat) (held : List (Entry K V)) : Chronicle.Told f now held [] where
  sorted := List.Pairwise.nil
  past x hx := by cases hx
  loaded t _ x hx := by cases hx
  level x hx := by cases hx
  rest _ entries hlast := by cases hlast
  saves before after copied entries hc := by simp at hc

theorem Timed.kept {p : Policy} {due opening : Nat}
    (hrun : Timed ⟨Manager.start p true, f, due⟩ opening now c s) (hapart : c.Apart)
    (hrunning : s.manager.cancelled = false) : s.Kept f now c := by
  induction hrun with
  | start =>
    exact ⟨rfl, rfl, told_nil f opening _, rfl, rfl⟩
  | pass later before waits forward bounded ih =>
    have h := ih hapart hrunning
    exact ⟨h.persistent, h.frequency, h.told.pass forward,
      h.pace.pass h.persistent hrunning waits bounded⟩
  | @step now c s m' step duration before turn possible ih =>
    have hmoves := Manager.moves_of_step? possible
    have h := ih hapart.left (hmoves.running hrunning)
    exact ⟨hmoves.policy_eq.2.trans h.persistent, h.frequency, h.told.concat (h.adds hmoves) hapart,
      h.pace.moves h.persistent h.frequency h.told.past hrunning turn possible hapart⟩

/-- When copies are taken, and of what. -/
structure KeepsTimetable (f now : Nat) (c : Chronicle K V) (s : Scheduled K V) : Prop where
  /-- a copy is taken only where one is booked, and has what is held all through that moment -/
  saves : ∀ (before after : Chronicle K V) copied entries, c = before ++ copied :: after →
    copied.copy? = some entries → before.Books f copied.time ∧
      ∀ x ∈ c, x.time = copied.time → x.entries = entries
  /-- a copy that is booked is the next one to be taken, once its time has come and the work rests -/
  happens : ∀ (before after : Chronicle K V) time, c = before ++ after → before.Books f time →
    s.next now = none → time ≤ now → ∃ early copied late entries, after = early ++ copied :: late ∧
      Chronicle.copies early = [] ∧ copied.copy? = some entries ∧ copied.time = time
  /-- from the end of a save to the next copy it is never less than the set time -/
  spaced : ∀ (before between after : Chronicle K V) first second,
    c = before ++ first :: (between ++ second :: after) → first.copy?.isSome = true →
      between.copies = [] → second.copy?.isSome = true →
        ∃ x ∈ between, x.ends = true ∧ x.time + f ≤ second.time
  /-- a burst of changes while the work has nothing to do makes one copy, of what they leave -/
  burst : ∀ (before after : Chronicle K V) e t, c = before ++ after → before.ended? = some e →
    before.signalled? = none → (after.find? Stage.signalled).map Stage.time = some t →
      (∀ x ∈ after, x.signalled = true → x.time < t + f) → s.next now = none → t + f ≤ now →
        ∃ early copied late, after = early ++ copied :: late ∧ Chronicle.copies early = [] ∧
          Chronicle.copies late = [] ∧ copied.copy? = some s.manager.contents.entries ∧
          copied.time = t + f

omit [DecidableEq K]

theorem Kept.happens (h : s.Kept f now c) (hrunning : s.manager.cancelled = false)
    (waits : s.next now = none) {before after : Chronicle K V} {time : Nat} (hc : c = before ++ after)
    (hbooks : before.Books f time) (htime : time ≤ now) :
    ∃ early copied late entries, after = early ++ copied :: late ∧ Chronicle.copies early = [] ∧
      copied.copy? = some entries ∧ copied.time = time := by
  rcases after.exists_first_copy with hnone | ⟨early, copied, late, entries, rfl, hearly, hcopy⟩
  · have hlate := h.pace.lt_of_books h.persistent hrunning waits (hc ▸ hbooks.append hnone)
    omega
  · have hsplit : c = (before ++ early) ++ copied :: late := by rw [hc, List.append_assoc]
    have hbooked := (h.told.saves _ _ _ _ hsplit hcopy).1
    exact ⟨early, copied, late, entries, rfl, hearly, hcopy, hbooked.unique (hbooks.append hearly)⟩

theorem Kept.spaced (h : s.Kept f now c) {before between after : Chronicle K V} {first second : Stage K V}
    (hc : c = before ++ first :: (between ++ second :: after)) (hfirst : first.copy?.isSome = true)
    (hnone : between.copies = []) (hsecond : second.copy?.isSome = true) :
    ∃ x ∈ between, x.ends = true ∧ x.time + f ≤ second.time := by
  obtain ⟨entries, hcopy⟩ := Option.isSome_iff_exists.mp hsecond
  have hsplit : c = ((before ++ [first]) ++ between) ++ second :: after := by simp [hc]
  obtain ⟨e, t, hended, -, htime⟩ := (h.told.saves _ _ _ _ hsplit hcopy).1
  rw [Chronicle.ended?, Chronicle.first?_append hnone, Chronicle.first?_copied hfirst,
    Option.none_or] at hended
  obtain ⟨x, hx, rfl⟩ := Option.map_eq_some_iff.mp hended
  exact ⟨x, List.mem_of_find?_eq_some hx, List.find?_some hx, by omega⟩

/-- Without a signal after a copy there is no other, and what is held is what was copied. -/
theorem Kept.rests (h : s.Kept f now c) {before after : Chronicle K V} {copied : Stage K V}
    {entries : List (Entry K V)} (hc : c = before ++ copied :: after)
    (hcopy : copied.copy? = some entries) (hsilent : ∀ x ∈ after, x.signalled = false) :
    after.copies = [] ∧ s.manager.contents.entries = entries := by
  have hsome : copied.copy?.isSome = true := by simp [hcopy]
  have hquiet : ∀ d : Chronicle K V, d.copies = [] → (∀ x ∈ d, x.signalled = false) →
      ((before ++ [copied]) ++ d).signalled? = none := by
    intro d hnone hd
    have hfind : d.find? Stage.signalled = none := by simpa using hd
    rw [Chronicle.signalled?, Chronicle.first?_append hnone, Chronicle.first?_copied hsome, hfind]
    rfl
  have hnone : after.copies = [] := by
    rcases after.exists_first_copy with hnone | ⟨early, next, late, other, rfl, hearly, hnext⟩
    · exact hnone
    · have hsplit : c = ((before ++ [copied]) ++ early) ++ next :: late := by simp [hc]
      obtain ⟨-, t, -, ht, -⟩ := (h.told.saves _ _ _ _ hsplit hnext).1
      rw [hquiet early hearly fun x hx => hsilent x (List.mem_append_left _ hx)] at ht
      cases ht
  have hsplit : c = (before ++ [copied]) ++ after := by simp [hc]
  refine ⟨hnone, h.told.rest (hsplit ▸ hquiet after hnone hsilent) entries ?_⟩
  have hone : Chronicle.copies [copied] = [entries] := by simp [Chronicle.copies, hcopy]
  have happend : ∀ d e : Chronicle K V, (d ++ e).copies = d.copies ++ e.copies := fun d e =>
    List.filterMap_append
  rw [hsplit, happend, happend, hnone, hone, List.append_nil, List.getLast?_concat]

theorem Kept.burst (h : s.Kept f now c) (hrunning : s.manager.cancelled = false)
    (waits : s.next now = none) {before after : Chronicle K V} {e t : Nat} (hc : c = before ++ after)
    (hended : before.ended? = some e) (hseen : before.signalled? = none)
    (hfirst : (after.find? Stage.signalled).map Stage.time = some t)
    (hwindow : ∀ x ∈ after, x.signalled = true → x.time < t + f) (hnow : t + f ≤ now) :
    ∃ early copied late, after = early ++ copied :: late ∧ Chronicle.copies early = [] ∧
      Chronicle.copies late = [] ∧ copied.copy? = some s.manager.contents.entries ∧
      copied.time = t + f := by
  have hsorted : ∀ y ∈ before, ∀ x ∈ after, y.time ≤ x.time :=
    (List.pairwise_append.mp (hc ▸ h.told.sorted)).2.2
  have hle : e ≤ t := by
    obtain ⟨y, hy, -, rfl⟩ := Chronicle.mem_of_first? hended
    obtain ⟨x, hx, rfl⟩ := Option.map_eq_some_iff.mp hfirst
    exact hsorted y hy x (List.mem_of_find?_eq_some hx)
  have hbooked : ∀ d : Chronicle K V, d.copies = [] →
      d.find? Stage.signalled = after.find? Stage.signalled → (before ++ d).Books f (t + f) := by
    intro d hnone hfind
    refine ⟨e, t, ?_, ?_, by omega⟩
    · rw [Chronicle.ended?, Chronicle.first?_append hnone,
        show before.first? Stage.ends = some e from hended, Option.some_or]
    · rw [Chronicle.signalled?, Chronicle.first?_append hnone,
        show before.first? Stage.signalled = none from hseen, Option.none_or, hfind, hfirst]
  rcases after.exists_first_copy with hnone | ⟨early, copied, late, entries, rfl, hearly, hcopy⟩
  · have hlate := h.pace.lt_of_books h.persistent hrunning waits (hc ▸ hbooked after hnone rfl)
    omega
  have hsplit : c = (before ++ early) ++ copied :: late := by rw [hc, List.append_assoc]
  have hbooks := (h.told.saves _ _ _ _ hsplit hcopy).1
  have hfind : early.find? Stage.signalled = (early ++ copied :: late).find? Stage.signalled := by
    obtain ⟨-, t', -, ht', -⟩ := hbooks
    rw [Chronicle.signalled?, Chronicle.first?_append hearly,
      show before.first? Stage.signalled = none from hseen, Option.none_or] at ht'
    obtain ⟨x, hx, -⟩ := Option.map_eq_some_iff.mp ht'
    rw [List.find?_append, hx, Option.some_or]
  have htime : copied.time = t + f := hbooks.unique (hbooked early hearly hfind)
  have hsilent : ∀ x ∈ late, x.signalled = false := by
    intro x hx
    have hafter : copied.time ≤ x.time :=
      (List.pairwise_cons.mp (List.pairwise_append.mp (hsplit ▸ h.told.sorted)).2.1).1 x hx
    refine Bool.eq_false_iff.mpr fun hsignalled => ?_
    have hbefore := hwindow x (by simp [hx]) hsignalled
    omega
  obtain ⟨hlate, hheld⟩ := h.rests hsplit hcopy hsilent
  exact ⟨early, copied, late, rfl, hearly, hlate, hheld ▸ hcopy, htime⟩

end

variable {f now opening due : Nat} {p : Policy} {c : Chronicle K V} {s : Scheduled K V}

/-- As long as no shutdown is asked for, and no change is signalled at the very moment of a copy, copies are
taken by the timetable. -/
theorem run_keepsTimetable (hrun : Timed ⟨Manager.start p true, f, due⟩ opening now c s)
    (hrunning : s.manager.cancelled = false) (hapart : c.Apart) :
    s.KeepsTimetable f now c := by
  have hkept := hrun.kept hapart hrunning
  exact {
    saves := fun before after copied entries hc hcopy => by
      obtain ⟨hbooks, hheld⟩ := hkept.told.saves before after copied entries hc hcopy
      exact ⟨hbooks, fun x hx htime => (hheld x hx htime).2⟩
    happens := fun _ _ _ hc hbooks waits htime => hkept.happens hrunning waits hc hbooks htime
    spaced := fun _ _ _ _ _ hc hfirst hnone hsecond => hkept.spaced hc hfirst hnone hsecond
    burst := fun _ _ _ _ hc hended hseen hfirst hwindow waits hnow =>
      hkept.burst hrunning waits hc hended hseen hfirst hwindow hnow }

/-- Two changes make one copy; that fails to be saved, and a change that comes meanwhile makes another. -/
theorem run_keepsTimetable_of_two_copies :
    ∃ (c : Chronicle Nat Nat) (s : Scheduled Nat Nat),
      Timed ⟨Manager.start Manager.smallPolicy true, 10, 5⟩ 0 40 c s ∧ s.manager.cancelled = false ∧
        c.Apart ∧
        (c.filter fun x => x.copy?.isSome).map Stage.time = [17, 31] ∧ s.KeepsTimetable 10 40 c := by
  have hloading : Timed (⟨Manager.start Manager.smallPolicy true, 10, 5⟩ : Scheduled Nat Nat) 0 5 [] _ :=
    Timed.start.pass 5 rfl (by decide) (by decide)
  have hloaded := hloading.step (.load [] 6) 0 (fun _ h => by cases h; rfl)
    (Manager.step?_load 6 rfl List.mergeSort_nil)
  have hquiet := hloaded.pass 7 rfl (by decide) (fun _ h => by cases h)
  have hfirst := hquiet.step (.act (.put 1 10 6)) 0 (fun _ h => by cases h) rfl
  have hwoken := hfirst.step .wake 0 (fun _ h => by cases h; rfl) rfl
  have hwaiting := hwoken.pass 9 rfl (by decide) (fun _ h => by cases h; decide)
  have hsecond := hwaiting.step (.act (.put 2 20 7)) 0 (fun _ h => by cases h) rfl
  have hdue := hsecond.pass 17 rfl (by decide) (fun _ h => by cases h; decide)
  have helapsed := hdue.step .elapse 0 (fun _ h => by cases h; rfl) rfl
  have hmarked := helapsed.step .mark 0 (fun _ h => by cases h; rfl) rfl
  have hcopied := hmarked.step .copy 4 (fun _ h => by cases h; rfl) rfl
  have hsaving := hcopied.pass 19 rfl (by decide) (fun _ h => by cases h; decide)
  have hthird := hsaving.step (.act (.put 3 30 8)) 0 (fun _ h => by cases h) rfl
  have hending := hthird.pass 21 rfl (by decide) (fun _ h => by cases h; decide)
  have hfailed := hending.step (.finish false) 0 (fun _ h => by cases h; rfl) rfl
  have hrecorded := hfailed.step .record 0 (fun _ h => by cases h; rfl) rfl
  have hwoken' := hrecorded.step .wake 0 (fun _ h => by cases h; rfl) rfl
  have hdue' := hwoken'.pass 31 rfl (by decide) (fun _ h => by cases h; decide)
  have helapsed' := hdue'.step .elapse 0 (fun _ h => by cases h; rfl) rfl
  have hmarked' := helapsed'.step .mark 0 (fun _ h => by cases h; rfl) rfl
  have hcopied' := hmarked'.step .copy 1 (fun _ h => by cases h; rfl) rfl
  have hsaving' := hcopied'.pass 32 rfl (by decide) (fun _ h => by cases h; decide)
  have hsaved := hsaving'.step (.finish true) 0 (fun _ h => by cases h; rfl) rfl
  have hidle := hsaved.step .record 0 (fun _ h => by cases h; rfl) rfl
  have hrun := hidle.pass 40 rfl (by decide) (fun _ h => by cases h)
  refine ⟨_, _, hrun, rfl, ?apart, ?_, run_keepsTimetable hrun rfl ?apart⟩
  · have hload : (Contents.load Manager.smallPolicy 6 ([] : List (Entry Nat Nat))).signalled = false := by
      rw [Contents.load_of_sorted 6 List.mergeSort_nil]
      rfl
    have hsilent : ∀ m' : Manager Nat Nat, ¬ ((Manager.start Manager.smallPolicy true).stage 5
        [.loaded [] 6, .published .ready] m').signalled = true := by
      intro m'
      simp [Manager.stage, Occurrence.signals, Manager.start, hload]
    refine Chronicle.apart_of_times ?signalled (show _ = [17, 31] from rfl) (show ∀ t ∈ [7, 9, 19], t ∉ _ by decide)
    exact congrArg (List.map Stage.time) (List.filter_cons_of_neg (hsilent _))
  · rfl

end Scheduled

end ExpiringCache
