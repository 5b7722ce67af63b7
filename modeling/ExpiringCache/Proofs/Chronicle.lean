import ExpiringCache.Proofs.Journal
import ExpiringCache.Simulation.World

/-!
Runs of a cache in time, and the chronicle that a run leaves: which step was taken when, whether it
signalled a change, and what was held after it. The background work takes each of its steps as soon as it
can; operations and a shutdown may come at any time, before it or after it. Time passes only while the
background work has to wait, and not beyond the end of its wait. A simulated world moves its caches in
just these steps.
-/
namespace ExpiringCache
set_option autoImplicit false

/-- The move of the background work that a step is; the others come from outside. -/
def Step.move? {K V : Type} : Step K V → Option Move
  | .load _ _ => some .load
  | .act _ | .cancel => none
  | .wake => some .wake
  | .elapse => some .elapse
  | .mark => some .mark
  | .copy => some .copy
  | .finish _ => some .finish
  | .record => some .record
  | .drain => some .drain
  | .announce => some .announce

/-- One step in a chronicle. -/
structure Stage (K V : Type) where
  time : Nat
  signalled : Bool
  journal : Journal K V
  entries : List (Entry K V)

namespace Stage
variable {K V : Type}

/-- The entries that are handed over to be saved. -/
def copy? (x : Stage K V) : Option (List (Entry K V)) := x.journal.saves.head?

def loads (x : Stage K V) : Bool := !x.journal.loads.isEmpty

/-- Whether a save ends, well or badly; the load counts as the end of one before the first. -/
def ends (x : Stage K V) : Bool := x.loads || !x.journal.endings.isEmpty

end Stage

abbrev Chronicle (K V : Type) := List (Stage K V)

variable {K V : Type} [DecidableEq K]

/-- Whether what occurs in the cache sends out a signal that something changed. -/
def Occurrence.signals (m : Manager K V) : Occurrence K V → Bool
  | .loaded snapshot now => (Contents.load m.policy now snapshot).signalled
  | .performed action _ => (m.perform action).signalled
  | _ => false

/-- What is noted of a step from `m` to `m'`. -/
def Manager.stage (m : Manager K V) (now : Nat) (occs : Journal K V) (m' : Manager K V) : Stage K V :=
  ⟨now, occs.any fun o => o.signals m, occs, m'.contents.entries⟩

namespace Scheduled

/-- The cache after a step at `now`. Waking up begins the wait for the burst to be over, and handing a copy
over begins a save, which takes as long as it takes. -/
def after (s : Scheduled K V) (now duration : Nat) (step : Step K V) (m' : Manager K V) :
    Scheduled K V :=
  let due := match step with
    | .wake => now + s.frequency
    | .copy => if s.manager.persistent then now + duration else s.due
    | _ => s.due
  { s with manager := m', due }

/-- From `s₀` at the time `opening` the cache comes to be `s` at `now`. -/
inductive Timed (s₀ : Scheduled K V) (opening : Nat) : Nat → Chronicle K V → Scheduled K V → Prop
  | start : Timed s₀ opening opening [] s₀
  | pass {now : Nat} {c : Chronicle K V} {s : Scheduled K V} (later : Nat)
      (before : Timed s₀ opening now c s) (waits : s.next now = none) (forward : now ≤ later)
      (bounded : ∀ alarm, s.alarm = some alarm → later ≤ alarm) : Timed s₀ opening later c s
  | step {now : Nat} {c : Chronicle K V} {s : Scheduled K V} {m' : Manager K V} (step : Step K V)
      (duration : Nat) (before : Timed s₀ opening now c s)
      (turn : ∀ move, step.move? = some move → s.next now = some move)
      (possible : s.manager.step? step = some m') :
      Timed s₀ opening now (c ++ [s.manager.stage now (s.manager.occurrences step m') m'])
        (s.after now duration step m')

/-- A step is possible when it is its turn. -/
theorem possible_of_next {s : Scheduled K V} {now : Nat} {move : Move} {step : Step K V}
    (h : s.next now = some move) (hmove : step.move? = some move) :
    (s.manager.step? step).isSome = true := by
  unfold next at h
  cases hphase : s.manager.phase with
  | idle =>
    simp only [hphase] at h
    split at h
    · rename_i hcancelled
      cases h
      cases step <;> cases hmove
      simp [Manager.step?, hphase, hcancelled]
    · rename_i hrunning
      split at h
      · rename_i hunseen
        cases h
        cases step <;> cases hmove
        simp [Manager.step?, hphase, hunseen, hrunning]
      · cases h
  | debouncing =>
    simp only [hphase] at h
    split at h
    · rename_i hcancelled
      cases h
      cases step <;> cases hmove
      simp [Manager.step?, hphase, hcancelled]
    · rename_i hrunning
      split at h
      · cases h
        cases step <;> cases hmove
        simp [Manager.step?, hphase, hrunning]
      · cases h
  | copying last =>
    simp only [hphase] at h
    cases h
    cases step <;> cases hmove
    simp only [Manager.step?, hphase]
    split <;> rfl
  | loading | saving =>
    simp only [hphase] at h
    split at h
    · cases h
      cases step <;> cases hmove
      simp [Manager.step?, hphase]
    · cases h
  | marking | recording | stopping | finished =>
    simp only [hphase] at h
    cases h
    cases step <;> cases hmove
    simp [Manager.step?, hphase]
  | closed =>
    simp only [hphase] at h
    cases h

end Scheduled

/-! ## The steps of a simulated world -/

namespace Simulation.World

theorem loadSnapshot_workers (w : World) (backend : Option Nat) :
    (w.loadSnapshot backend).2.workers = w.workers := by
  unfold loadSnapshot
  split
  · rfl
  · split <;> rfl

theorem beginSave_beside (w : World) (backend : Option Nat) (entries : Entries) :
    (w.beginSave backend entries).2.workers = w.workers ∧
      (w.beginSave backend entries).2.time = w.time := by
  unfold beginSave
  split
  · exact ⟨rfl, rfl⟩
  · split <;> exact ⟨rfl, rfl⟩

theorem endSave_workers (w : World) (backend : Option Nat) (response : Bool) (entries : Entries) :
    (w.endSave backend response entries).2.workers = w.workers := by
  unfold endSave
  split
  · rfl
  · split <;> rfl

theorem readClock_workers (w : World) (wallClock : Bool) :
    ((readClock wallClock).run w).2.workers = w.workers := by
  unfold readClock
  simp only [StateT.run]
  split <;> rfl

theorem getElem?_updateWorker {w : World} {i : Nat} {x : Worker} (hx : w.workers[i]? = some x)
    (f : Worker → Worker) : (w.updateWorker i f).workers[i]? = some (f x) := by
  simp [updateWorker, hx]

/-- What a world does to move a cache on is a step of the cache in time. -/
theorem move_scheduled {w : World} {i : Nat} {x : Worker} {m : Move} (hx : w.workers[i]? = some x)
    (hnext : x.scheduled.next w.time = some m) :
    ∃ step duration m', step.move? = some m ∧ x.manager.step? step = some m' ∧
      (w.move i x m).workers[i]?.map Worker.scheduled =
        some (x.scheduled.after w.time duration step m') := by
  have hpossible : ∀ step : Step String String, step.move? = some m →
      x.manager.step? step = some (x.manager.step step) := by
    intro step hstep
    obtain ⟨m', hm'⟩ := Option.isSome_iff_exists.mp (Scheduled.possible_of_next hnext hstep)
    rw [Manager.step, Worker.manager, hm']
    rfl
  -- most moves do nothing in the world but take the step, and begin no wait
  have hplain : ∀ step : Step String String, step.move? = some m →
      (w.move i x m = w.updateWorker i fun x => x.withManager (x.manager.step step)) →
      (∀ m', x.scheduled.after w.time 0 step m' = { x.scheduled with manager := m' }) →
      ∃ step duration m', step.move? = some m ∧ x.manager.step? step = some m' ∧
        (w.move i x m).workers[i]?.map Worker.scheduled =
          some (x.scheduled.after w.time duration step m') := by
    intro step hstep hmove hafter
    refine ⟨step, 0, _, hstep, hpossible step hstep, ?_⟩
    rw [hmove, getElem?_updateWorker hx, hafter]
    rfl
  cases m with
  | load =>
    have hkeeper := w.loadSnapshot_workers x.backend
    rcases hloaded : w.loadSnapshot x.backend with ⟨entries, w₁⟩
    have hclock := readClock_workers w₁ x.wallClock
    rcases hread : (readClock x.wallClock).run w₁ with ⟨now, w₂⟩
    rw [hloaded] at hkeeper
    rw [hread] at hclock
    have hx' : w₂.workers[i]? = some x := by rw [hclock, hkeeper, hx]
    refine ⟨.load entries now, 0, _, rfl, hpossible _ rfl, ?_⟩
    simp only [move, hloaded, hread, getElem?_updateWorker hx']
    rfl
  | wake =>
    refine ⟨.wake, 0, _, rfl, hpossible _ rfl, ?_⟩
    simp only [move, setDue, getElem?_updateWorker (getElem?_updateWorker hx _)]
    rfl
  | copy =>
    by_cases hpersistent : x.scheduled.manager.persistent = true
    · have hbeside := w.beginSave_beside x.backend x.manager.contents.entries
      rcases hbegun : w.beginSave x.backend x.manager.contents.entries with ⟨⟨response, duration⟩, w₁⟩
      rw [hbegun] at hbeside
      have hx' : w₁.workers[i]? = some x := by rw [hbeside.1, hx]
      refine ⟨.copy, duration, _, rfl, hpossible _ rfl, ?_⟩
      simp only [move, Worker.manager] at hbegun ⊢
      simp only [hbegun, setDue, Scheduled.after, if_pos hpersistent,
        getElem?_updateWorker (getElem?_updateWorker (getElem?_updateWorker hx' _) _)]
      rw [← hbeside.2]
      rfl
    · exact hplain .copy rfl (if_neg hpersistent) fun m' => by
        simp only [Scheduled.after, if_neg hpersistent]
  | finish =>
    have hworkers := w.endSave_workers x.backend x.response (copyOf x.manager)
    rcases hended : w.endSave x.backend x.response (copyOf x.manager) with ⟨succeeded, w₁⟩
    rw [hended] at hworkers
    have hx' : w₁.workers[i]? = some x := by rw [hworkers, hx]
    refine ⟨.finish succeeded, 0, _, rfl, hpossible _ rfl, ?_⟩
    simp only [move, hended, getElem?_updateWorker hx']
    rfl
  | elapse => exact hplain .elapse rfl rfl fun _ => rfl
  | mark => exact hplain .mark rfl rfl fun _ => rfl
  | record => exact hplain .record rfl rfl fun _ => rfl
  | drain => exact hplain .drain rfl rfl fun _ => rfl
  | announce => exact hplain .announce rfl rfl fun _ => rfl

theorem stampPairs_workers (wallClock : Bool) (pairs : List (String × String)) (w : World) :
    ((Request.stampPairs (readClock wallClock) pairs).run w).2.workers = w.workers := by
  induction pairs generalizing w with
  | nil => rfl
  | cons pair pairs ih => exact (ih _).trans (readClock_workers w wallClock)

theorem stamp_workers (wallClock : Bool) (r : Request String String) (w : World) :
    ((r.stamp (readClock wallClock)).run w).2.workers = w.workers := by
  cases r with
  | get key => exact readClock_workers w wallClock
  | put key value => exact readClock_workers w wallClock
  | putAll pairs => exact stampPairs_workers wallClock pairs w
  | remove key => rfl
  | clear => rfl
  | trim => exact readClock_workers w wallClock

/-- What a world does to serve a request is a step of the cache in time. -/
theorem perform_scheduled {w : World} {i : Nat} {x : Worker} (r : Request String String)
    (hx : w.workers[i]? = some x) (hloaded : x.manager.phase ≠ .loading) :
    ∃ action m', x.manager.step? (.act action) = some m' ∧
      (w.perform i r).2.workers[i]?.map Worker.scheduled =
        some (x.scheduled.after w.time 0 (.act action) m') := by
  have hworkers := stamp_workers x.wallClock r w
  rcases hstamp : (r.stamp (readClock x.wallClock)).run w with ⟨action, w₁⟩
  rw [hstamp] at hworkers
  have hx' : w₁.workers[i]? = some x := by rw [hworkers, hx]
  have hpossible : x.manager.step? (.act action) = some (x.manager.step (.act action)) := by
    simp only [Manager.step, Manager.step?]
    rfl
  refine ⟨action, _, hpossible, ?_⟩
  simp only [perform, hx, hstamp, getElem?_updateWorker hx']
  rfl

end Simulation.World

end ExpiringCache
