import ExpiringCache.Proofs.Journal

/-!
Operations that take more than one stage. A batch is written pair by pair, an old entry goes before the new
one comes, and expired entries go before live ones do; in between, the contents are none that any sequence
of operations leaves. The lock keeps this to the operation itself: it holds the lock through all its stages,
and whoever copies the entries or counts a save needs the lock, while the rest of the background work and a
shutdown go on beside it. Main statement: a run with the lock leaves a journal of a run in which every
operation is one step, and each such journal is left by a run with the lock.
-/
namespace ExpiringCache
set_option autoImplicit false

/-! ## Stages -/

namespace Contents
variable {K V : Type}

/-- A part of an operation that leaves the contents changed before the next part comes. -/
abbrev Stage (K V : Type) := Contents K V → Contents K V

def through (c : Contents K V) (stages : List (Stage K V)) : Contents K V :=
  stages.foldl (fun c stage => stage c) c

theorem through_append (c : Contents K V) (as bs : List (Stage K V)) :
    c.through (as ++ bs) = (c.through as).through bs :=
  List.foldl_append

def purgeStage (p : Policy) (now : Instant) : Stage K V := fun c => (c.purge p now).2

/-- Contents that are too large lose their expired entries at the front. -/
def makeRoomStage (p : Policy) (now : Instant) : Stage K V := fun c =>
  match p.maxSize with
  | none => c
  | some limit => if c.size ≤ limit then c else (c.purge p now).2

/-- Contents that are too large lose their oldest entries. -/
def evictStage (p : Policy) : Stage K V := fun c =>
  match p.maxSize with
  | none => c
  | some limit => (c.evict limit).2

variable {p : Policy}

theorem evict_of_le {limit : Nat} {c : Contents K V} (h : c.size ≤ limit) : (c.evict limit).2 = c := by
  have hnone : c.size - limit = 0 := Nat.sub_eq_zero_of_le h
  have hstore : c.store.drop 0 = c.store := rfl
  simp only [evict, Store.removeFront, hnone, hstore, Nat.zero_min]
  rfl

theorem evictStage_makeRoomStage (now : Instant) (c : Contents K V) :
    evictStage p (makeRoomStage p now c) = (c.trimToSize p now).2 := by
  unfold evictStage makeRoomStage trimToSize
  cases p.maxSize with
  | none => rfl
  | some limit =>
    by_cases hfits : c.size ≤ limit
    · simp only [if_pos hfits]
      exact evict_of_le hfits
    · simp only [if_neg hfits]

variable [DecidableEq K]

def removeStage (key : K) : Stage K V := fun c => { c with store := (c.store.remove key).2 }

def storeStage (key : K) (value : V) (now : Instant) : Stage K V := fun c =>
  { c with store := c.store.put key (Entry.fresh key value now) }

/-- A key is looked up, which in order of access moves it to the back. -/
def lookUpStage (key : K) : Stage K V := fun c => { c with store := (c.store.get key).2 }

/-- What was looked up is counted, and its entry given up or read. -/
def settleStage (p : Policy) (key : K) (now : Instant) : Stage K V := fun c =>
  match c.store.find? key with
  | none => { c with stats := c.stats.miss }
  | some e =>
    if p.isExpired e now then ⟨(c.store.remove key).2, (c.stats.expire 1).miss⟩
    else ⟨c.store.put key (e.accessedAt now), c.stats.hit⟩

def insertStages (p : Policy) (key : K) (value : V) (now : Instant) : List (Stage K V) :=
  [removeStage key, storeStage key value now, makeRoomStage p now, evictStage p]

def stages (p : Policy) : Action K V → List (Stage K V)
  | .get key now => [lookUpStage key, settleStage p key now]
  | .put key value now => insertStages p key value now
  | .putAll pairs => pairs.flatMap fun (key, value, now) => insertStages p key value now
  | .remove key => [removeStage key]
  | .clear => [fun c => { c with store := c.store.clear }]
  | .trim now => [purgeStage p now]

theorem through_insertStages (key : K) (value : V) (now : Instant) (c : Contents K V) :
    c.through (insertStages p key value now) = c.insert p key value now :=
  evictStage_makeRoomStage now _

theorem through_insertAll (pairs : List (K × V × Instant)) (c : Contents K V) :
    c.through (pairs.flatMap fun (key, value, now) => insertStages p key value now) =
      pairs.foldl (fun c (key, value, now) => c.insert p key value now) c := by
  induction pairs generalizing c with
  | nil => rfl
  | cons pair pairs ih =>
    rw [List.flatMap_cons, through_append, through_insertStages, ih]
    rfl

theorem through_get (key : K) (now : Instant) (c : Contents K V) :
    c.through [lookUpStage key, settleStage p key now] = (c.get p key now).contents := by
  have hsettle : c.through [lookUpStage key, settleStage p key now] =
      settleStage p key now { c with store := (c.store.get key).2 } := rfl
  have hget : c.store.get key = (c.store.find? key, (c.store.get key).2) :=
    Prod.ext (fst_get key c.store) rfl
  rw [hsettle, settleStage, Store.find?_get, get, hget]
  cases c.store.find? key with
  | none => rfl
  | some e =>
    simp only
    split <;> rfl

/-- An operation is what its stages make of the contents, one after another. -/
theorem through_stages (action : Action K V) (c : Contents K V) :
    c.through (stages p action) = (c.apply p action).contents := by
  cases action with
  | get key now => exact through_get key now c
  | put key value now => exact through_insertStages key value now c
  | putAll pairs => exact through_insertAll pairs c
  | remove key => rfl
  | clear => rfl
  | trim now => rfl

end Contents

/-! ## Operations as single steps -/

namespace Manager
variable {K V : Type} [DecidableEq K]

theorem step?_act_eq_some {m m' : Manager K V} {action : Action K V} :
    m.step? (.act action) = some m' ↔ m.phase ≠ .loading ∧ m.accept (m.perform action) = m' := by
  simp only [step?]
  split
  · simp [*]
  · rename_i hloaded
    rw [Option.some.injEq]
    exact (and_iff_right hloaded).symm

theorem occurrences_act (m : Manager K V) (action : Action K V) :
    m.occurrences (.act action) (m.accept (m.perform action)) =
      [.performed action (m.perform action).value] := by
  simp [occurrences, accept, lifecycle]

end Manager

/-! ## The lock -/

/-- An operation that holds the lock: what it will have found, whether it will signal a change, which
stages are left, and whether it is complete, so that it has only the lock to give back. -/
structure Holder (K V : Type) where
  action : Action K V
  value : Option V
  signals : Bool
  todo : List (Contents.Stage K V)
  complete : Bool := false

/-- A cache with its lock. -/
structure Locked (K V : Type) where
  manager : Manager K V
  holder : Option (Holder K V) := none

/-- Whether a step looks at the contents or changes them. -/
def Step.needsLock {K V : Type} : Step K V → Bool
  | .load _ _ | .act _ | .copy | .record => true
  | .cancel | .wake | .elapse | .mark | .finish _ | .drain | .announce => false

namespace Locked
variable {K V : Type}

def start (p : Policy) (persistent : Bool) : Locked K V := ⟨Manager.start p persistent, none⟩

variable [DecidableEq K]

def holderOf (m : Manager K V) (action : Action K V) : Holder K V where
  action
  value := (m.perform action).value
  signals := (m.perform action).signalled
  todo := Contents.stages m.policy action

/-- The ways in which a cache with its lock can go on, and what happens in each. An operation is complete,
and signals, before it gives the lock back. -/
inductive Moves (s : Locked K V) : Locked K V → Journal K V → Prop
  | acquire (action : Action K V) (loaded : s.manager.phase ≠ .loading) (free : s.holder = none) :
      Moves s { s with holder := some (holderOf s.manager action) } []
  | advance (h : Holder K V) (stage : Contents.Stage K V) (rest : List (Contents.Stage K V))
      (holds : s.holder = some h) (todo : h.todo = stage :: rest) :
      Moves s
        { manager := { s.manager with contents := stage s.manager.contents }
          holder := some { h with todo := rest } }
        []
  | complete (h : Holder K V) (holds : s.holder = some h) (todo : h.todo = [])
      (incomplete : h.complete = false) :
      Moves s
        { manager := { s.manager with unseen := s.manager.unseen || h.signals }
          holder := some { h with complete := true } }
        [.performed h.action h.value]
  | release (h : Holder K V) (holds : s.holder = some h) (complete : h.complete = true) :
      Moves s { s with holder := none } []
  | work (step : Step K V) (m' : Manager K V) (background : ∀ action, step ≠ .act action)
      (possible : s.manager.step? step = some m') (free : step.needsLock = true → s.holder = none) :
      Moves s { s with manager := m' } (s.manager.occurrences step m')

/-- From `s₀` the cache comes to be `s`, and the journal tells what happened on the way. -/
inductive Run (s₀ : Locked K V) : Journal K V → Locked K V → Prop
  | nil : Run s₀ [] s₀
  | step {j occs : Journal K V} {s s' : Locked K V} (before : Run s₀ j s) (moves : Moves s s' occs) :
      Run s₀ (j ++ occs) s'

/-! ## From the lock to single steps -/

/-- The cache `m`, in which every operation is one step, stands where `s` does. The stages of an operation
that is not complete have yet to show. -/
inductive Shows : Locked K V → Manager K V → Prop
  | free (m : Manager K V) : Shows ⟨m, none⟩ m
  | held (m : Manager K V) (c : Contents K V) (h : Holder K V) (loaded : m.phase ≠ .loading)
      (incomplete : h.complete = false) (value : h.value = (m.perform h.action).value)
      (signals : h.signals = (m.perform h.action).signalled)
      (contents : c.through h.todo = (m.perform h.action).contents) :
      Shows ⟨{ m with contents := c }, some h⟩ m
  | leaving (m : Manager K V) (h : Holder K V) (complete : h.complete = true) (todo : h.todo = []) :
      Shows ⟨m, some h⟩ m

/-- A step that does not need the lock does the same whatever the contents are. -/
theorem step?_beside {m m' : Manager K V} {c : Contents K V} {step : Step K V}
    (hneeds : step.needsLock = false)
    (h : ({ m with contents := c } : Manager K V).step? step = some m') :
    ∃ next, m.step? step = some next ∧ m' = { next with contents := c } ∧
      next.contents = m.contents ∧ next.policy = m.policy ∧
      (m.phase ≠ .loading → next.phase ≠ .loading) ∧
      ({ m with contents := c } : Manager K V).occurrences step m' = m.occurrences step next := by
  obtain ⟨policy, persistent, contents, phase, unseen, cancelled⟩ := m
  cases step with
  | load | act | copy | record => cases hneeds
  | cancel =>
    cases h
    exact ⟨_, rfl, rfl, rfl, rfl, id, rfl⟩
  -- each of these steps is possible in a phase of its own
  | mark | finish | announce =>
    cases phase <;> cases h <;> exact ⟨_, rfl, rfl, rfl, rfl, by simp, rfl⟩
  | wake | drain =>
    cases phase <;> first
      | cases h
      | obtain ⟨hguard, hnext⟩ := Option.ite_none_right_eq_some.mp h
        cases hnext
        exact ⟨_, if_pos hguard, rfl, rfl, rfl, by simp, rfl⟩
  | elapse =>
    cases phase <;> first
      | cases h
      | obtain ⟨hguard, hnext⟩ := Option.ite_none_left_eq_some.mp h
        cases hnext
        exact ⟨_, if_neg hguard, rfl, rfl, rfl, by simp, rfl⟩

/-- A cache with its lock goes on as one without it does, or stands where it stood. -/
theorem Moves.shows {s s' : Locked K V} {m : Manager K V} {occs : Journal K V} (hmoves : Moves s s' occs)
    (hshows : Shows s m) :
    (occs = [] ∧ Shows s' m) ∨
      ∃ step m', m.step? step = some m' ∧ m.occurrences step m' = occs ∧ Shows s' m' := by
  cases hshows with
  | free =>
    cases hmoves with
    | acquire action loaded _ =>
      exact .inl ⟨rfl, .held m m.contents _ loaded rfl rfl rfl (Contents.through_stages action m.contents)⟩
    | work step m' background possible => exact .inr ⟨step, m', possible, rfl, .free m'⟩
    | advance _ _ _ holds | complete _ holds | release _ holds => cases holds
  | held _ c h loaded incomplete value signals contents =>
    cases hmoves with
    | acquire action _ free => cases free
    | advance _ stage rest holds todo =>
      cases holds
      rw [todo] at contents
      exact .inl ⟨rfl, .held m (stage c) _ loaded incomplete value signals contents⟩
    | complete _ holds todo =>
      -- no stage is left, so this is where the operation happens for all others
      cases holds
      rw [todo] at contents
      have hm : ({ m with contents := c, unseen := m.unseen || h.signals } : Manager K V) =
          m.accept (m.perform h.action) := by
        rw [Manager.accept, ← contents, signals]
        rfl
      have hshows : Shows ⟨m.accept (m.perform h.action), some { h with complete := true }⟩
          (m.accept (m.perform h.action)) := .leaving _ _ rfl todo
      rw [← hm] at hshows
      refine .inr ⟨.act h.action, _, Manager.step?_act_eq_some.mpr ⟨loaded, rfl⟩, ?_, ?_⟩
      · rw [Manager.occurrences_act, value]
      · rw [← hm]
        exact hshows
    | release _ holds isComplete =>
      cases holds
      rw [incomplete] at isComplete
      cases isComplete
    | work step m' background possible free =>
      have hbeside : step.needsLock = false := by
        by_contra hneeds
        cases free (by simpa using hneeds)
      obtain ⟨next, hnext, rfl, hcontents, hpolicy, hloaded, hoccs⟩ := step?_beside hbeside possible
      have hperform : next.perform h.action = m.perform h.action := by
        rw [Manager.perform, Manager.perform, hcontents, hpolicy]
      refine .inr ⟨step, next, hnext, hoccs.symm, ?_⟩
      exact .held next c h (hloaded loaded) incomplete (hperform ▸ value) (hperform ▸ signals)
        (hperform ▸ contents)
  | leaving _ h isComplete done =>
    cases hmoves with
    | acquire action _ free => cases free
    | advance _ stage rest holds todo =>
      cases holds
      rw [done] at todo
      cases todo
    | complete _ holds _ incomplete =>
      cases holds
      rw [isComplete] at incomplete
      cases incomplete
    | release => exact .inl ⟨rfl, .free m⟩
    | work step m' background possible => exact .inr ⟨step, m', possible, rfl, .leaving m' h isComplete done⟩

theorem Run.shows {m₀ : Manager K V} {s : Locked K V} {j : Journal K V} (h : Run ⟨m₀, none⟩ j s) :
    ∃ m, Manager.Run m₀ j m ∧ Shows s m := by
  induction h with
  | nil => exact ⟨m₀, .nil, .free m₀⟩
  | step before moves ih =>
    obtain ⟨m, hrun, hshows⟩ := ih
    rcases moves.shows hshows with ⟨rfl, hstays⟩ | ⟨step, m', hstep, rfl, hgoes⟩
    · rw [List.append_nil]
      exact ⟨m, hrun, hstays⟩
    · exact ⟨m', .step step hrun hstep, hgoes⟩

/-! ## From single steps to the lock -/

theorem Run.silent {s₀ s s' : Locked K V} {j : Journal K V} (hrun : Run s₀ j s) (hmoves : Moves s s' []) :
    Run s₀ j s' := by
  have hstep := hrun.step hmoves
  rwa [List.append_nil] at hstep

/-- The background work goes on while nobody holds the lock, or in a step that does not need it. -/
theorem Run.beside {s₀ : Locked K V} {m m' : Manager K V} {holder : Option (Holder K V)} {j : Journal K V}
    (hrun : Run s₀ j ⟨m, holder⟩) (step : Step K V) (possible : m.step? step = some m')
    (free : holder = none ∨ step.needsLock = false)
    (background : ∀ action, step ≠ .act action := by simp) :
    Run s₀ (j ++ m.occurrences step m') ⟨m', holder⟩ := by
  refine hrun.step (.work step m' background possible fun hneeds => ?_)
  rcases free with hfree | hbeside
  · exact hfree
  · rw [hbeside] at hneeds
    cases hneeds

theorem Run.advance {s₀ : Locked K V} {m : Manager K V} {h : Holder K V} {j : Journal K V}
    (hrun : Run s₀ j ⟨m, some h⟩) :
    Run s₀ j ⟨{ m with contents := m.contents.through h.todo }, some { h with todo := [] }⟩ := by
  obtain ⟨action, value, signals, todo, complete⟩ := h
  induction todo generalizing m with
  | nil => exact hrun
  | cons stage rest ih =>
    have hstage := hrun.silent (.advance _ stage rest rfl rfl)
    exact ih hstage

theorem Run.act {s₀ : Locked K V} {m : Manager K V} {j : Journal K V} (hrun : Run s₀ j ⟨m, none⟩)
    (action : Action K V) (loaded : m.phase ≠ .loading) :
    Run s₀ (j ++ [.performed action (m.perform action).value]) ⟨m.accept (m.perform action), none⟩ := by
  have hacquired := hrun.silent (.acquire action loaded rfl)
  have hcomplete := hacquired.advance.step (.complete _ rfl rfl rfl)
  have hreleased := hcomplete.silent (.release _ rfl rfl)
  simp only [holderOf, Contents.through_stages] at hreleased
  exact hreleased

theorem Run.of_run {m₀ m : Manager K V} {j : Journal K V} (h : Manager.Run m₀ j m) :
    Run ⟨m₀, none⟩ j ⟨m, none⟩ := by
  induction h with
  | nil => exact .nil
  | step step before possible ih =>
    cases step with
    | act action =>
      obtain ⟨loaded, rfl⟩ := Manager.step?_act_eq_some.mp possible
      rw [Manager.occurrences_act]
      exact ih.act action loaded
    | load | cancel | wake | elapse | mark | copy | finish | record | drain | announce =>
      exact ih.beside _ possible (.inl rfl)

/-- The lock makes every operation one step: with it and without it a cache can leave the same journals. -/
theorem exists_run_iff {m₀ : Manager K V} {j : Journal K V} :
    (∃ s, Run ⟨m₀, none⟩ j s) ↔ ∃ m, Manager.Run m₀ j m := by
  constructor
  · rintro ⟨s, hrun⟩
    obtain ⟨m, hm, -⟩ := hrun.shows
    exact ⟨m, hm⟩
  · rintro ⟨m, hrun⟩
    exact ⟨_, .of_run hrun⟩

end Locked

end ExpiringCache
