import ExpiringCache.Manager
import ExpiringCache.Proofs.ContentsEntries

/-!
Runs of a cache with its background work, and the journal that a run leaves: what was made known, loaded,
done, handed over and recorded, in this order. A run is any sequence of steps each of which is possible
in its turn, so what holds of every run holds however operations, saving and a shutdown interleave.
-/
namespace ExpiringCache
set_option autoImplicit false

/-- Steps one after another: what each of them gave, and the state after them. -/
def runAll {S A B : Type} (step : S → A → B × S) (s : S) (inputs : List A) : List B × S :=
  inputs.foldl (fun (outputs, s) a => (outputs ++ [(step s a).1], (step s a).2)) ([], s)

theorem runAll_concat {S A B : Type} (step : S → A → B × S) (s : S) (inputs : List A) (a : A) :
    runAll step s (inputs ++ [a]) =
      ((runAll step s inputs).1 ++ [(step (runAll step s inputs).2 a).1],
        (step (runAll step s inputs).2 a).2) := by
  rw [runAll, List.foldl_append]
  rfl

/-! ## Occurrences -/

inductive Occurrence (K V : Type) where
  | published (life : Lifecycle)
  | loaded (snapshot : List (Entry K V)) (now : Instant)
  | performed (action : Action K V) (value : Option V)
  | cancelled
  /-- every signal so far counts as seen -/
  | noticed
  /-- entries are handed over to be saved -/
  | saveBegan (entries : List (Entry K V))
  | saveEnded (succeeded : Bool)
  | recorded (succeeded : Bool)

namespace Occurrence
variable {K V : Type}

def life? : Occurrence K V → Option Lifecycle
  | .published life => some life
  | _ => none

def load? : Occurrence K V → Option (List (Entry K V) × Instant)
  | .loaded snapshot now => some (snapshot, now)
  | _ => none

def action? : Occurrence K V → Option (Action K V)
  | .performed action _ => some action
  | _ => none

def answer? : Occurrence K V → Option (Option V)
  | .performed _ value => some value
  | _ => none

def copy? : Occurrence K V → Option (List (Entry K V))
  | .saveBegan entries => some entries
  | _ => none

def ending? : Occurrence K V → Option Bool
  | .saveEnded succeeded => some succeeded
  | _ => none

def outcome? : Occurrence K V → Option Bool
  | .recorded succeeded => some succeeded
  | _ => none

end Occurrence

/-- What happened in a run, in order. -/
abbrev Journal (K V : Type) := List (Occurrence K V)

namespace Journal
variable {K V : Type}

/-- The parts of its life in which others saw the cache, after the first one. -/
def published (j : Journal K V) : List Lifecycle := j.filterMap Occurrence.life?

def loads (j : Journal K V) : List (List (Entry K V) × Instant) := j.filterMap Occurrence.load?

def actions (j : Journal K V) : List (Action K V) := j.filterMap Occurrence.action?

def answers (j : Journal K V) : List (Option V) := j.filterMap Occurrence.answer?

def saves (j : Journal K V) : List (List (Entry K V)) := j.filterMap Occurrence.copy?

/-- How saving ended, each time that it did. -/
def endings (j : Journal K V) : List Bool := j.filterMap Occurrence.ending?

/-- The outcomes of saving that were counted. -/
def outcomes (j : Journal K V) : List Bool := j.filterMap Occurrence.outcome?

def life (j : Journal K V) : Lifecycle := j.published.getLastD .initializing

section
variable (i j : Journal K V)

@[simp] theorem published_append : (i ++ j).published = i.published ++ j.published :=
  List.filterMap_append

@[simp] theorem loads_append : (i ++ j).loads = i.loads ++ j.loads := List.filterMap_append

@[simp] theorem actions_append : (i ++ j).actions = i.actions ++ j.actions := List.filterMap_append

@[simp] theorem answers_append : (i ++ j).answers = i.answers ++ j.answers := List.filterMap_append

@[simp] theorem saves_append : (i ++ j).saves = i.saves ++ j.saves := List.filterMap_append

@[simp] theorem endings_append : (i ++ j).endings = i.endings ++ j.endings := List.filterMap_append

@[simp] theorem outcomes_append : (i ++ j).outcomes = i.outcomes ++ j.outcomes :=
  List.filterMap_append

end

end Journal

/-! ## Runs -/

namespace Manager
variable {K V : Type} [DecidableEq K]

/-- What happens in a step from `m` to `m'`. -/
def occurrences (m : Manager K V) (s : Step K V) (m' : Manager K V) : Journal K V :=
  let own : Journal K V :=
    match s with
    | .load snapshot now => [.loaded snapshot now]
    | .act action => [.performed action (m.perform action).value]
    | .cancel => [.cancelled]
    | .wake | .mark => [.noticed]
    | .copy =>
      match m'.phase with
      | .saving _ entries => [.saveBegan entries]
      | _ => []
    | .finish succeeded => [.saveEnded succeeded]
    | .record =>
      match m.phase with
      | .recording _ succeeded => [.recorded succeeded]
      | _ => []
    | .elapse | .drain | .announce => []
  own ++ if m'.lifecycle = m.lifecycle then [] else [.published m'.lifecycle]

/-- From `m₀` the cache comes to be `m`, and the journal tells what happened on the way. -/
inductive Run (m₀ : Manager K V) : Journal K V → Manager K V → Prop
  | nil : Run m₀ [] m₀
  | step {j : Journal K V} {m m' : Manager K V} (s : Step K V) (before : Run m₀ j m)
      (possible : m.step? s = some m') : Run m₀ (j ++ m.occurrences s m') m'

/-- The ways in which a cache can go on, and what happens in each. -/
inductive Moves (m : Manager K V) : Manager K V → Journal K V → Prop
  | load (snapshot : List (Entry K V)) (now : Instant) (h : m.phase = .loading) :
      Moves m { m.accept (Contents.load m.policy now snapshot) with phase := .idle }
        [.loaded snapshot now, .published .ready]
  | act (action : Action K V) (h : m.phase ≠ .loading) :
      Moves m (m.accept (m.perform action)) [.performed action (m.perform action).value]
  | cancel : Moves m { m with cancelled := true } [.cancelled]
  | wake (h : m.phase = .idle) (persistent : m.persistent = true) (unseen : m.unseen = true)
      (running : m.cancelled = false) :
      Moves m { m with phase := .debouncing, unseen := false } [.noticed]
  | elapse (h : m.phase = .debouncing) (running : m.cancelled = false) :
      Moves m { m with phase := .marking } []
  | mark (h : m.phase = .marking) :
      Moves m { m with phase := .copying false, unseen := false } [.noticed]
  | save (last : Bool) (h : m.phase = .copying last) (persistent : m.persistent = true) :
      Moves m { m with phase := .saving last m.contents.entries } [.saveBegan m.contents.entries]
  | skip (last : Bool) (h : m.phase = .copying last) (persistent : m.persistent = false) :
      Moves m { m with phase := afterSave last } []
  | finish (last : Bool) (copy : List (Entry K V)) (succeeded : Bool)
      (h : m.phase = .saving last copy) :
      Moves m { m with phase := .recording last succeeded } [.saveEnded succeeded]
  | record (last succeeded : Bool) (h : m.phase = .recording last succeeded) :
      Moves m
        { m with
          contents := { m.contents with stats := m.contents.stats.save succeeded }
          phase := afterSave last }
        [.recorded succeeded]
  | drain (h : m.phase = .idle ∨ m.phase = .debouncing) (cancelled : m.cancelled = true) :
      Moves m { m with phase := .stopping } []
  | announceDraining (h : m.phase = .stopping) :
      Moves m { m with phase := .copying true } [.published .draining]
  | announceClosed (h : m.phase = .finished) :
      Moves m { m with phase := .closed } [.published .closed]

theorem moves_of_step? {m m' : Manager K V} {s : Step K V} (h : m.step? s = some m') :
    Moves m m' (m.occurrences s m') := by
  cases s with
  | load snapshot now =>
    simp only [step?] at h
    split at h
    · rename_i hphase
      cases h
      simpa [occurrences, lifecycle, hphase, Phase.lifecycle] using Moves.load snapshot now hphase
    · cases h
  | act action =>
    simp only [step?] at h
    split at h
    · cases h
    · rename_i hphase
      cases h
      simpa [occurrences, lifecycle, accept] using Moves.act action hphase
  | cancel =>
    cases h
    simpa [occurrences, lifecycle] using Moves.cancel
  | wake =>
    simp only [step?] at h
    split at h
    · rename_i hphase
      split at h
      · rename_i hguard
        cases h
        simp only [Bool.and_eq_true, Bool.not_eq_true'] at hguard
        simpa [occurrences, lifecycle, hphase, Phase.lifecycle] using
          Moves.wake hphase hguard.1.1 hguard.1.2 hguard.2
      · cases h
    · cases h
  | elapse =>
    simp only [step?] at h
    split at h
    · rename_i hphase
      split at h
      · cases h
      · rename_i hrunning
        cases h
        simpa [occurrences, lifecycle, hphase, Phase.lifecycle] using
          Moves.elapse hphase (by simpa using hrunning)
    · cases h
  | mark =>
    simp only [step?] at h
    split at h
    · rename_i hphase
      cases h
      simpa [occurrences, lifecycle, hphase, Phase.lifecycle] using Moves.mark hphase
    · cases h
  | copy =>
    simp only [step?] at h
    split at h
    · rename_i last hphase
      split at h
      · rename_i hpersistent
        cases h
        simpa [occurrences, lifecycle, hphase, Phase.lifecycle] using Moves.save last hphase hpersistent
      · rename_i hpersistent
        cases h
        have hmoves := Moves.skip last hphase (by simpa using hpersistent)
        cases last <;> simpa [occurrences, lifecycle, hphase, Phase.lifecycle, afterSave] using hmoves
    · cases h
  | finish succeeded =>
    simp only [step?] at h
    split at h
    · rename_i last copy hphase
      cases h
      simpa [occurrences, lifecycle, hphase, Phase.lifecycle] using
        Moves.finish last copy succeeded hphase
    · cases h
  | record =>
    simp only [step?] at h
    split at h
    · rename_i last succeeded hphase
      cases h
      have hmoves := Moves.record last succeeded hphase
      cases last <;> simpa [occurrences, lifecycle, hphase, Phase.lifecycle, afterSave] using hmoves
    · cases h
  | drain =>
    simp only [step?] at h
    split at h
    · rename_i hphase
      split at h
      · rename_i hcancelled
        cases h
        simpa [occurrences, lifecycle, hphase, Phase.lifecycle] using
          Moves.drain (.inl hphase) hcancelled
      · cases h
    · rename_i hphase
      split at h
      · rename_i hcancelled
        cases h
        simpa [occurrences, lifecycle, hphase, Phase.lifecycle] using
          Moves.drain (.inr hphase) hcancelled
      · cases h
    · cases h
  | announce =>
    simp only [step?] at h
    split at h
    · rename_i hphase
      cases h
      simpa [occurrences, lifecycle, hphase, Phase.lifecycle] using Moves.announceDraining hphase
    · rename_i hphase
      cases h
      simpa [occurrences, lifecycle, hphase, Phase.lifecycle] using Moves.announceClosed hphase
    · cases h

/-- What holds at the start of a run, and goes on to hold whichever way the cache goes on, holds after
it. -/
theorem Run.induction {m₀ m : Manager K V} {j : Journal K V} {P : Journal K V → Manager K V → Prop}
    (h : Run m₀ j m) (hstart : P [] m₀)
    (hmoves : ∀ j m m' occs, Run m₀ j m → P j m → Moves m m' occs → P (j ++ occs) m') : P j m := by
  induction h with
  | nil => exact hstart
  | step s before possible ih => exact hmoves _ _ _ _ before ih (moves_of_step? possible)

/-- Apart from a load, which makes the cache known as ready, nothing occurs in a step beside others. -/
theorem Moves.occurs_alone {m m' : Manager K V} {pre post : Journal K V} {o : Occurrence K V}
    (h : Moves m m' (pre ++ o :: post)) (hload : o.load? = none) (hready : o.life? ≠ some .ready) :
    pre = [] ∧ post = [] := by
  generalize hoccs : pre ++ o :: post = occs at h
  cases h with
  | load snapshot now =>
    have hmem : o ∈ [Occurrence.loaded snapshot now, .published .ready] := by simp [← hoccs]
    rcases List.mem_pair.mp hmem with rfl | rfl
    · cases hload
    · exact absurd rfl hready
  | elapse | skip | drain => simp at hoccs
  | act | cancel | wake | mark | save | finish | record | announceDraining | announceClosed =>
    cases pre <;> simp_all

/-- What occurs in a run occurs in a step of it, after all that came before. -/
theorem Run.at_occurrence {m₀ m : Manager K V} {j before after : Journal K V} {o : Occurrence K V}
    (h : Run m₀ j m) (hj : j = before ++ o :: after) (hload : o.load? = none)
    (hready : o.life? ≠ some .ready) : ∃ mid next, Run m₀ before mid ∧ Moves mid next [o] := by
  refine h.induction (P := fun j _ => ∀ after, j = before ++ o :: after →
      ∃ mid next, Run m₀ before mid ∧ Moves mid next [o])
    (fun after hnone => by simp at hnone) ?_ after hj
  intro j m m' occs hrun ih hmoves after hj
  rcases List.append_eq_append_iff.mp hj with ⟨pre, hbefore, hoccs⟩ | ⟨late, hearly, hlate⟩
  · subst hoccs
    obtain ⟨rfl, rfl⟩ := hmoves.occurs_alone hload hready
    rw [List.append_nil] at hbefore
    exact ⟨m, m', hbefore ▸ hrun, hmoves⟩
  · rcases List.cons_eq_append_iff.mp hlate with ⟨rfl, rfl⟩ | ⟨tail, rfl, -⟩
    · have hstep : Moves m m' ([] ++ o :: after) := hmoves
      obtain ⟨-, rfl⟩ := hstep.occurs_alone hload hready
      rw [List.append_nil] at hearly
      exact ⟨m, m', hearly ▸ hrun, hmoves⟩
    · exact ih tail hearly

/-- What is handed over is what was held just before. -/
theorem Run.at_save {m₀ m : Manager K V} {j before after : Journal K V} {copy : List (Entry K V)}
    (h : Run m₀ j m) (hj : j = before ++ .saveBegan copy :: after) :
    ∃ mid last, Run m₀ before mid ∧ mid.phase = .copying last ∧ mid.persistent = true ∧
      mid.contents.entries = copy := by
  obtain ⟨mid, next, hmid, hmoves⟩ := h.at_occurrence hj rfl (by simp [Occurrence.life?])
  cases hmoves with
  | save last hphase hpersistent => exact ⟨mid, last, hmid, hphase, hpersistent, rfl⟩

/-- When it is made known that a cache is closed, its work has just finished. -/
theorem Run.at_closing {m₀ m : Manager K V} {j before after : Journal K V}
    (h : Run m₀ j m) (hj : j = before ++ .published .closed :: after) :
    ∃ mid, Run m₀ before mid ∧ mid.phase = .finished := by
  obtain ⟨mid, next, hmid, hmoves⟩ := h.at_occurrence hj rfl (by simp [Occurrence.life?])
  cases hmoves with
  | announceClosed hphase => exact ⟨mid, hmid, hphase⟩

/-- What an operation found is what it finds in the cache just before. -/
theorem Run.at_performed {m₀ m : Manager K V} {j before after : Journal K V} {action : Action K V}
    {value : Option V} (h : Run m₀ j m) (hj : j = before ++ .performed action value :: after) :
    ∃ mid, Run m₀ before mid ∧ mid.phase ≠ .loading ∧ (mid.perform action).value = value := by
  obtain ⟨mid, next, hmid, hmoves⟩ := h.at_occurrence hj rfl (by simp [Occurrence.life?])
  generalize hoccs : [Occurrence.performed action value] = occs at hmoves
  cases hmoves with
  | act other hloaded =>
    obtain ⟨rfl, rfl⟩ := Occurrence.performed.inj (List.singleton_inj.mp hoccs)
    exact ⟨mid, hmid, hloaded, rfl⟩
  | load | cancel | wake | elapse | mark | save | skip | finish | record | drain | announceDraining
  | announceClosed => simp at hoccs

/-! ## Entries in a run -/

/-- Apart from the load, only operations change what is held. -/
theorem Moves.effect {m m' : Manager K V} {occs : Journal K V} (h : Moves m m' occs)
    (hloaded : m.phase ≠ .loading) :
    m'.phase ≠ .loading ∧ occs.loads = [] ∧
      ((∃ action, occs.actions = [action] ∧ occs.answers = [(m.perform action).value] ∧
          m'.contents = (m.perform action).contents) ∨
        (occs.actions = [] ∧ occs.answers = [] ∧ m'.contents.store = m.contents.store)) := by
  cases h with
  | load snapshot now hphase => exact absurd hphase hloaded
  | act action => exact ⟨hloaded, rfl, .inl ⟨action, rfl, rfl, rfl⟩⟩
  | cancel => exact ⟨hloaded, rfl, .inr ⟨rfl, rfl, rfl⟩⟩
  | skip last => cases last <;> exact ⟨by simp [afterSave], rfl, .inr ⟨rfl, rfl, rfl⟩⟩
  | record last => cases last <;> exact ⟨by simp [afterSave], rfl, .inr ⟨rfl, rfl, rfl⟩⟩
  | wake | elapse | mark | save | finish | drain | announceDraining | announceClosed =>
    exact ⟨by simp, rfl, .inr ⟨rfl, rfl, rfl⟩⟩

theorem Moves.policy_eq {m m' : Manager K V} {occs : Journal K V} (h : Moves m m' occs) :
    m'.policy = m.policy ∧ m'.persistent = m.persistent := by
  cases h <;> exact ⟨rfl, rfl⟩

theorem Run.policy_eq {m₀ m : Manager K V} {j : Journal K V} (h : Run m₀ j m) :
    m.policy = m₀.policy ∧ m.persistent = m₀.persistent := by
  refine h.induction (P := fun _ m => m.policy = m₀.policy ∧ m.persistent = m₀.persistent)
    ⟨rfl, rfl⟩ ?_
  rintro j m m' occs - ⟨hpolicy, hpersistent⟩ hmoves
  exact ⟨hmoves.policy_eq.1.trans hpolicy, hmoves.policy_eq.2.trans hpersistent⟩

/-- What the operations found and what is held is what the operations, done one after another on the
list `entries`, find and leave. -/
structure Follows (p : Policy) (entries : List (Entry K V)) (j : Journal K V) (m : Manager K V) :
    Prop where
  policy : m.policy = p
  loaded : m.phase ≠ .loading
  sound : m.contents.Sound p
  answers : j.answers = (runAll (Entries.apply p) entries j.actions).1
  entries : m.contents.entries = (runAll (Entries.apply p) entries j.actions).2

theorem Follows.moves {p : Policy} {entries : List (Entry K V)} {j occs : Journal K V}
    {m m' : Manager K V} (h : Follows p entries j m) (hmoves : Moves m m' occs) :
    Follows p entries (j ++ occs) m' := by
  obtain ⟨hloaded, -, heffect⟩ := hmoves.effect h.loaded
  have hpolicy : m'.policy = p := hmoves.policy_eq.1.trans h.policy
  rcases heffect with ⟨action, hactions, hanswers, hcontents⟩ | ⟨hactions, hanswers, hstore⟩
  · have happly := Contents.entries_apply action h.sound
    rw [h.entries] at happly
    have hperform : m.perform action = m.contents.apply p action := by rw [perform, h.policy]
    have hj : (j ++ occs).actions = j.actions ++ [action] := by
      rw [Journal.actions_append, hactions]
    refine ⟨hpolicy, hloaded, ?_, ?_, ?_⟩
    · rw [hcontents, hperform]
      exact Contents.sound_apply action h.sound
    · rw [hj, runAll_concat, ← happly, ← h.answers, Journal.answers_append, hanswers, hperform]
    · rw [hj, runAll_concat, ← happly, hcontents, hperform]
  · have hj : (j ++ occs).actions = j.actions := by
      rw [Journal.actions_append, hactions, List.append_nil]
    refine ⟨hpolicy, hloaded, ⟨?_, ?_⟩, ?_, ?_⟩
    · rw [hstore]
      exact h.sound.order
    · rw [hstore]
      exact h.sound.keyed
    · rw [hj, ← h.answers, Journal.answers_append, hanswers, List.append_nil]
    · rw [hj, ← h.entries, Contents.entries, hstore]
      rfl

/-- A run of a loaded cache does its operations on what the cache held. -/
theorem Run.follows {m₀ m : Manager K V} {j : Journal K V} (h : Run m₀ j m)
    (hloaded : m₀.phase ≠ .loading) (hsound : m₀.contents.Sound m₀.policy) :
    Follows m₀.policy m₀.contents.entries j m :=
  h.induction (P := Follows m₀.policy m₀.contents.entries) ⟨rfl, hloaded, hsound, rfl, rfl⟩
    fun _ _ _ _ _ ih hmoves => ih.moves hmoves

/-- The snapshot has not arrived, so nothing has been done. -/
structure Unloaded (p : Policy) (j : Journal K V) (m : Manager K V) : Prop where
  phase : m.phase = .loading
  contents : m.contents = Contents.empty p
  loads : j.loads = []
  actions : j.actions = []
  answers : j.answers = []

theorem Unloaded.moves {p : Policy} {j occs : Journal K V} {m m' : Manager K V}
    (h : Unloaded p j m) (hpolicy : m.policy = p) (hmoves : Moves m m' occs) :
    Unloaded p (j ++ occs) m' ∨
      ∃ snapshot now, (j ++ occs).loads = [(snapshot, now)] ∧
        Follows p (Contents.load p now snapshot).contents.entries (j ++ occs) m' := by
  have hphase := h.phase
  cases hmoves with
  | load snapshot now =>
    refine .inr ⟨snapshot, now, by rw [Journal.loads_append, h.loads]; rfl, ?_⟩
    subst hpolicy
    refine ⟨rfl, by simp, Contents.sound_load m.policy now snapshot, ?_, ?_⟩
    · rw [Journal.answers_append, Journal.actions_append, h.answers, h.actions]
      rfl
    · rw [Journal.actions_append, h.actions]
      rfl
  | cancel =>
    refine .inl ⟨hphase, h.contents, ?_, ?_, ?_⟩
    · rw [Journal.loads_append, h.loads]
      rfl
    · rw [Journal.actions_append, h.actions]
      rfl
    · rw [Journal.answers_append, h.answers]
      rfl
  | act action hloaded => exact absurd hphase hloaded
  | drain hwait => rcases hwait with hwait | hwait <;> simp [hphase] at hwait
  | wake hother | elapse hother | mark hother | save _ hother | skip _ hother | finish _ _ _ hother
  | record _ _ hother | announceDraining hother | announceClosed hother => simp [hphase] at hother

/-- A cache loads one snapshot and does no operation before that; from then on it does its operations on
what the load gave. -/
theorem Run.loaded_once {p : Policy} {persistent : Bool} {m : Manager K V} {j : Journal K V}
    (h : Run (Manager.start p persistent) j m) :
    Unloaded p j m ∨
      ∃ snapshot now, j.loads = [(snapshot, now)] ∧
        Follows p (Contents.load p now snapshot).contents.entries j m := by
  refine h.induction (P := fun j m => Unloaded p j m ∨
      ∃ snapshot now, j.loads = [(snapshot, now)] ∧
        Follows p (Contents.load p now snapshot).contents.entries j m)
    (.inl ⟨rfl, rfl, rfl, rfl, rfl⟩) ?_
  rintro j m m' occs hrun (hunloaded | ⟨snapshot, now, hloads, hfollows⟩) hmoves
  · exact hunloaded.moves hrun.policy_eq.1 hmoves
  · obtain ⟨-, hnone, -⟩ := hmoves.effect hfollows.loaded
    exact .inr ⟨snapshot, now, by simp [hloads, hnone], hfollows.moves hmoves⟩

theorem Run.loads_eq {p : Policy} {persistent : Bool} {m : Manager K V} {j : Journal K V}
    {load : List (Entry K V) × Instant} (h : Run (Manager.start p persistent) j m)
    (hload : load ∈ j.loads) : j.loads = [load] := by
  rcases h.loaded_once with hunloaded | ⟨snapshot, now, hloads, -⟩
  · rw [hunloaded.loads] at hload
    cases hload
  · rw [hloads, List.mem_singleton] at hload
    rw [hloads, hload]

theorem Run.follows_load {p : Policy} {persistent : Bool} {m : Manager K V} {j : Journal K V}
    {snapshot : List (Entry K V)} {now : Instant} (h : Run (Manager.start p persistent) j m)
    (hload : (snapshot, now) ∈ j.loads) :
    Follows p (Contents.load p now snapshot).contents.entries j m := by
  rcases h.loaded_once with hunloaded | ⟨snapshot', now', hloads, hfollows⟩
  · rw [hunloaded.loads] at hload
    cases hload
  · rw [hloads, List.mem_singleton] at hload
    cases hload
    exact hfollows

theorem Run.sound {p : Policy} {persistent : Bool} {m : Manager K V} {j : Journal K V}
    (h : Run (Manager.start p persistent) j m) : m.contents.Sound p := by
  rcases h.loaded_once with hunloaded | ⟨snapshot, now, -, hfollows⟩
  · rw [hunloaded.contents]
    exact ⟨rfl, Store.keyed_empty _⟩
  · exact hfollows.sound

theorem Run.perform_eq {p : Policy} {persistent : Bool} {m : Manager K V} {j : Journal K V}
    (h : Run (Manager.start p persistent) j m) (action : Action K V) :
    m.perform action = m.contents.apply p action :=
  congrArg (m.contents.apply · action) h.policy_eq.1

/-! ## Trying runs -/

/-- Where the entries of a snapshot are known in order, the load is known without sorting. -/
theorem step?_load {m : Manager K V} {snapshot sorted : List (Entry K V)} (now : Instant)
    (hloading : m.phase = .loading) (hsorted : Entries.sorted m.policy snapshot = sorted) :
    m.step? (.load snapshot now) =
      let (removed, c) :=
        Contents.trimToSize m.policy now { store := (Store.empty m.policy.order).putAll sorted }
      some { m.accept { contents := c, signalled := 0 < removed } with phase := .idle } := by
  simp only [step?, hloading, Contents.load_of_sorted now hsorted]

/-- Two entries at most, which live for ten milliseconds after their last use. -/
def smallPolicy : Policy where
  maxSize := some 2
  lifetime := some (.timeToIdle (.ofMillis 10))
  maxSize_pos := by simp
  shortest_le := by
    intro l hl
    cases hl
    decide

end Manager

end ExpiringCache
