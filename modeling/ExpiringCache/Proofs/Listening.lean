import ExpiringCache.Pressure
import Mathlib.Data.List.Perm.Subperm

/-!
Who listens to a source of warnings that caches share. Caches begin to listen, are shut down, and stop
listening some time after that, in any order. Whichever stops, the source is left without a listener, even if
another cache began to listen meanwhile: the newest one hears warnings just as long as none has stopped since
it began.
-/
namespace ExpiringCache
set_option autoImplicit false

/-- A source of warnings, and the caches that were shut down. -/
structure Audience where
  pressure : Pressure := {}
  cancelled : List Nat := []

namespace Audience

inductive Change where
  | decorate (cache : Nat)
  | cancel (cache : Nat)
  /-- the work that waited for a shutdown goes on -/
  | detach (cache : Nat)

def Change.isDetach : Change → Bool
  | .detach _ => true
  | .decorate _ | .cancel _ => false

/-- What becomes of the audience, if the change is possible now. -/
def step? (a : Audience) : Change → Option Audience
  | .decorate cache => some { a with pressure := a.pressure.decorate cache }
  | .cancel cache => some { a with cancelled := cache :: a.cancelled }
  | .detach cache =>
    if cache ∈ a.pressure.waiting ∧ cache ∈ a.cancelled then
      some { a with pressure := a.pressure.release cache }
    else none

/-- What becomes of the audience, if the changes are possible one after another. -/
def run? (a : Audience) (changes : List Change) : Option Audience := changes.foldlM step? a

theorem run?_cons {a a' : Audience} {change : Change} {changes : List Change} :
    a.run? (change :: changes) = some a' ↔ ∃ mid, a.step? change = some mid ∧ mid.run? changes = some a' := by
  rw [run?, List.foldlM_cons]
  exact Option.bind_eq_some_iff

theorem run?_append {a a' : Audience} {before after : List Change} :
    a.run? (before ++ after) = some a' ↔ ∃ mid, a.run? before = some mid ∧ mid.run? after = some a' := by
  rw [run?, List.foldlM_append]
  exact Option.bind_eq_some_iff

/-! ## Stopping to listen -/

theorem release_eq {p : Pressure} {cache : Nat} (h : cache ∈ p.waiting) :
    p.release cache = { notifier := p.notifier.detach, waiting := p.waiting.erase cache } :=
  if_pos (List.contains_iff_mem.mpr h)

/-- A cache stops listening when it was shut down, and does not look who is listening. -/
theorem step?_detach {a a' : Audience} {cache : Nat} :
    a.step? (.detach cache) = some a' ↔
      cache ∈ a.pressure.waiting ∧ cache ∈ a.cancelled ∧
        a' = { a with pressure := ⟨a.pressure.notifier.detach, a.pressure.waiting.erase cache⟩ } := by
  rw [step?]
  by_cases hguard : cache ∈ a.pressure.waiting ∧ cache ∈ a.cancelled
  · rw [if_pos hguard, release_eq hguard.1, Option.some_inj]
    exact ⟨fun heq => ⟨hguard.1, hguard.2, heq.symm⟩, fun h => h.2.2.symm⟩
  · rw [if_neg hguard]
    exact ⟨nofun, fun h => absurd ⟨h.1, h.2.1⟩ hguard⟩

theorem mem_cancelled_of_step? {a a' : Audience} {change : Change} {cache : Nat}
    (hstep : a.step? change = some a') (h : cache ∈ a.cancelled) : cache ∈ a'.cancelled := by
  cases change with
  | decorate other =>
    cases hstep
    exact h
  | cancel other =>
    cases hstep
    exact List.mem_cons_of_mem _ h
  | detach other =>
    obtain ⟨-, -, rfl⟩ := step?_detach.mp hstep
    exact h

/-- Who was shut down stays so. -/
theorem mem_cancelled_of_run? {a a' : Audience} {changes : List Change} {cache : Nat}
    (hrun : a.run? changes = some a') (h : cache ∈ a.cancelled) : cache ∈ a'.cancelled := by
  induction changes generalizing a with
  | nil =>
    cases hrun
    exact h
  | cons change changes ih =>
    obtain ⟨mid, hstep, hrest⟩ := run?_cons.mp hrun
    exact ih hrest (mem_cancelled_of_step? hstep h)

/-! ## As long as no other cache begins to listen -/

theorem listener_of_undecorated {a a' : Audience} {changes : List Change}
    (hrun : a.run? changes = some a') (hnone : ∀ cache, .decorate cache ∉ changes) :
    a'.pressure.notifier.listener =
      if changes.any Change.isDetach then none else a.pressure.notifier.listener := by
  induction changes generalizing a with
  | nil =>
    cases hrun
    rfl
  | cons change changes ih =>
    obtain ⟨mid, hstep, hrest⟩ := run?_cons.mp hrun
    have hlater := ih hrest fun cache h => hnone cache (List.mem_cons_of_mem _ h)
    cases change with
    | decorate cache => exact absurd List.mem_cons_self (hnone cache)
    | cancel cache =>
      cases hstep
      exact hlater
    | detach cache =>
      -- nobody is left, whoever it was, and nobody comes
      obtain ⟨-, -, rfl⟩ := step?_detach.mp hstep
      rw [hlater]
      exact ite_self _

/-- Only who listened before stops listening, and only when it was shut down. -/
theorem detached_of_undecorated {a a' : Audience} {changes : List Change} {cache : Nat}
    (hrun : a.run? changes = some a') (hnone : ∀ other, .decorate other ∉ changes)
    (h : .detach cache ∈ changes) : cache ∈ a.pressure.waiting ∧ cache ∈ a'.cancelled := by
  induction changes generalizing a with
  | nil => cases h
  | cons change changes ih =>
    obtain ⟨mid, hstep, hrest⟩ := run?_cons.mp hrun
    have hlater := ih hrest fun other h => hnone other (List.mem_cons_of_mem _ h)
    cases change with
    | decorate other => exact absurd List.mem_cons_self (hnone other)
    | cancel other =>
      cases hstep
      rcases List.mem_cons.mp h with heq | h
      · cases heq
      · exact hlater h
    | detach other =>
      obtain ⟨hwaiting, hcancelled, rfl⟩ := step?_detach.mp hstep
      rcases List.mem_cons.mp h with heq | h
      · cases heq
        exact ⟨hwaiting, mem_cancelled_of_run? hrest hcancelled⟩
      · exact ⟨List.mem_of_mem_erase (hlater h).1, (hlater h).2⟩

/-! ## The newest cache -/

/-- As long as the newest cache is not shut down, it hears warnings unless another one has stopped listening
since it began; then nobody does. -/
theorem signal_newest {a : Audience} {before after : List Change} {cache : Nat} (level : MemoryLevel)
    (hrun : run? {} (before ++ .decorate cache :: after) = some a)
    (hnewest : ∀ other, .decorate other ∉ after) (hrunning : cache ∉ a.cancelled) :
    a.pressure.notifier.signal level =
        (if after.any Change.isDetach then none else some (cache, level)) ∧
      ∀ other, .detach other ∈ after → other ≠ cache ∧ other ∈ a.cancelled := by
  obtain ⟨earlier, -, hrest⟩ := run?_append.mp hrun
  obtain ⟨decorated, hdecorate, hafter⟩ := run?_cons.mp hrest
  cases hdecorate
  constructor
  · rw [Notifier.signal, listener_of_undecorated hafter hnewest]
    split <;> rfl
  · intro other hother
    obtain ⟨-, hcancelled⟩ := detached_of_undecorated hafter hnewest hother
    exact ⟨fun heq => hrunning (heq ▸ hcancelled), hcancelled⟩

/-- The other cache was shut down before the newest one began to listen, and stops listening after that. -/
theorem signal_newest_of_late_detach :
    ∃ a a', run? {} ([.decorate 0, .cancel 0] ++ .decorate 1 :: []) = some a ∧
      run? {} ([.decorate 0, .cancel 0] ++ .decorate 1 :: [.detach 0]) = some a' ∧ 1 ∉ a'.cancelled ∧
      a.pressure.notifier.signal .low = some (1, .low) ∧ a'.pressure.notifier.signal .critical = none := by
  have hrun : run? {} ([.decorate 0, .cancel 0] ++ .decorate 1 :: []) =
      some { pressure := { notifier := { listener := some 1 }, waiting := [0, 1] }, cancelled := [0] } := rfl
  have hdetached : run? {} ([.decorate 0, .cancel 0] ++ .decorate 1 :: [.detach 0]) =
      some { pressure := { notifier := {}, waiting := [1] }, cancelled := [0] } := rfl
  exact ⟨_, _, hrun, hdetached, by decide, (signal_newest .low hrun (by simp) (by decide)).1,
    (signal_newest .critical hdetached (by simp) (by decide)).1⟩

/-- It is not so that the newest cache hears every warning until it is shut down itself: the one before it
is shut down, and stops listening in its stead. -/
theorem newest_unheard :
    ¬ ∀ (before after : List Change) (cache : Nat) (a : Audience) (level : MemoryLevel),
      run? {} (before ++ .decorate cache :: after) = some a → (∀ other, .decorate other ∉ after) →
        cache ∉ a.cancelled → a.pressure.notifier.signal level = some (cache, level) := by
  intro hheard
  have hlast := hheard [.decorate 0] [.cancel 0, .detach 0] 1
    { pressure := { notifier := {}, waiting := [1] }, cancelled := [0] } .critical rfl (by simp) (by decide)
  cases hlast

/-- When all that are shut down have stopped listening before a cache begins, it hears every warning until
it is shut down itself. -/
theorem signal_newest_of_settled {earlier a : Audience} {after : List Change} {cache : Nat}
    (level : MemoryLevel) (hrun : earlier.run? (.decorate cache :: after) = some a)
    (hnewest : ∀ other, .decorate other ∉ after) (hrunning : cache ∉ a.cancelled)
    (hsettled : ∀ other ∈ a.cancelled, other ∉ earlier.pressure.waiting) :
    a.pressure.notifier.signal level = some (cache, level) := by
  obtain ⟨decorated, hdecorate, hafter⟩ := run?_cons.mp hrun
  cases hdecorate
  have hattached : after.any Change.isDetach = false := by
    rw [List.any_eq_false]
    rintro (other | other | other) hother
    · simp [Change.isDetach]
    · simp [Change.isDetach]
    · obtain ⟨hwaiting, hcancelled⟩ := detached_of_undecorated hafter hnewest hother
      rcases List.mem_append.mp hwaiting with hwaiting | hself
      · exact absurd hwaiting (hsettled other hcancelled)
      · cases List.mem_singleton.mp hself
        exact absurd hcancelled hrunning
  rw [Notifier.signal, listener_of_undecorated hafter hnewest, hattached]
  rfl

/-! ## Simulated caches -/

theorem run?_detach {a : Audience} {caches : List Nat} (hwaiting : caches.Subperm a.pressure.waiting)
    (hcancelled : ∀ cache ∈ caches, cache ∈ a.cancelled) :
    a.run? (caches.map .detach) =
      some { a with pressure := caches.foldl Pressure.release a.pressure } := by
  induction caches generalizing a with
  | nil => rfl
  | cons cache caches ih =>
    have hfirst := hwaiting.subset List.mem_cons_self
    have hrest : caches.Subperm (a.pressure.waiting.erase cache) := by
      simpa using hwaiting.erase cache
    rw [List.map_cons, run?_cons]
    refine ⟨_, step?_detach.mpr ⟨hfirst, hcancelled cache List.mem_cons_self, rfl⟩, ?_⟩
    rw [List.foldl_cons, release_eq hfirst]
    exact ih hrest fun other h => hcancelled other (List.mem_cons_of_mem _ h)

/-- When simulated caches settle, those that were shut down stop listening one after another. -/
theorem run?_releaseAll {a : Audience} {isShutDown : Nat → Bool}
    (h : ∀ cache, isShutDown cache = true → cache ∈ a.cancelled) :
    a.run? ((a.pressure.waiting.filter isShutDown).map .detach) =
      some { a with pressure := a.pressure.releaseAll isShutDown } :=
  run?_detach List.filter_sublist.subperm fun cache hcache => h cache (List.mem_filter.mp hcache).2

end Audience

end ExpiringCache
