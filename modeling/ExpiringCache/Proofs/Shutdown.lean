import ExpiringCache.Proofs.Trimming

/-!
How a cache comes to its end. A shutdown may be asked for at any moment. Whatever the background work is
doing then, it brings that to an end, saves once more, waits until this has been counted, and only then
is the cache closed.
-/
namespace ExpiringCache
set_option autoImplicit false

/-! ## Views of a phase -/

/-- The parts of its life in which a cache has been seen, after the first one. -/
def Lifecycle.history : Lifecycle → List Lifecycle
  | .initializing => []
  | .ready => [.ready]
  | .draining => [.ready, .draining]
  | .closed => [.ready, .draining, .closed]

theorem Lifecycle.getLastD_history (life : Lifecycle) : life.history.getLastD .initializing = life := by
  cases life <;> rfl

theorem Lifecycle.history_prefix (life : Lifecycle) :
    .initializing :: life.history <+: [.initializing, .ready, .draining, .closed] := by
  cases life <;> decide

theorem Lifecycle.closed_of_history {life : Lifecycle} (h : .closed ∈ life.history) :
    life = .closed := by
  cases life <;> simp [history] at h ⊢

namespace Phase
variable {K V : Type}

/-- How many saves have begun but not ended. -/
def pending : Phase K V → Nat
  | .saving _ _ => 1
  | _ => 0

/-- How saving ended, as long as that has not been counted. -/
def uncounted : Phase K V → List Bool
  | .recording _ succeeded => [succeeded]
  | _ => []

def stopped : Phase K V → Bool
  | .stopping | .finished | .closed => true
  | .copying last | .saving last _ | .recording last _ => last
  | _ => false

/-- Whether the copying after a shutdown is over. -/
def pastLastCopy : Phase K V → Bool
  | .finished | .closed => true
  | .saving last _ | .recording last _ => last
  | _ => false

theorem pastLastCopy_of_closed {phase : Phase K V} (h : phase.lifecycle = .closed) :
    phase.pastLastCopy = true := by
  cases phase with
  | closed => rfl
  | copying last | saving last _ | recording last _ => cases last <;> cases h
  | loading | idle | debouncing | marking | stopping | finished => cases h

end Phase

/-! ## Views of a journal -/

namespace Journal
variable {K V : Type}

/-- What was handed over while others saw the cache in the part `life` of its life, if it was first seen
in the part `current`. -/
def savesFrom (life : Lifecycle) : Lifecycle → Journal K V → List (List (Entry K V))
  | _, [] => []
  | _, .published current :: j => savesFrom life current j
  | current, .saveBegan copy :: j =>
    if current = life then copy :: savesFrom life current j else savesFrom life current j
  | current, _ :: j => savesFrom life current j

def savesWhile (life : Lifecycle) (j : Journal K V) : List (List (Entry K V)) :=
  j.savesFrom life .initializing

theorem savesFrom_append (life current : Lifecycle) (i j : Journal K V) :
    (i ++ j).savesFrom life current =
      i.savesFrom life current ++ j.savesFrom life ((published i).getLastD current) := by
  induction i generalizing current with
  | nil => rfl
  | cons o i ih =>
    cases o with
    | published next =>
      have hlast : published (Occurrence.published next :: i) = next :: published i := rfl
      rw [hlast, List.getLastD_cons]
      exact ih next
    | saveBegan copy =>
      have hlast : published (Occurrence.saveBegan copy :: i) = published i := rfl
      rw [hlast]
      simp only [List.cons_append, savesFrom, ih]
      split <;> rfl
    | loaded | performed | cancelled | noticed | saveEnded | recorded => exact ih current

theorem savesWhile_append (life : Lifecycle) (j occs : Journal K V) :
    (j ++ occs).savesWhile life = j.savesWhile life ++ occs.savesFrom life j.life :=
  savesFrom_append life .initializing j occs

theorem saves_eq_nil {j : Journal K V}
    (h : ∀ (before after : Journal K V) (copy : List (Entry K V)),
      j ≠ before ++ .saveBegan copy :: after) : j.saves = [] := by
  refine List.filterMap_eq_nil_iff.mpr fun o ho => ?_
  cases o with
  | saveBegan copy =>
    obtain ⟨before, after, hsplit⟩ := List.append_of_mem ho
    exact absurd hsplit (h before after copy)
  | published | loaded | performed | cancelled | noticed | saveEnded | recorded => rfl

end Journal

/-! ## Counters of saves -/

namespace Contents
variable {K V : Type}

/-- How many snapshots were saved, and how many attempts failed. -/
def saveCounts (c : Contents K V) : Nat × Nat := (c.stats.snapshotSaves, c.stats.snapshotFailures)

theorem Sheds.saveCounts_eq {c c' : Contents K V} (h : c.Sheds c') : c'.saveCounts = c.saveCounts := by
  obtain ⟨expired, evicted, -, hstats⟩ := h
  rw [saveCounts, hstats]
  rfl

variable [DecidableEq K]

theorem saveCounts_insert (p : Policy) (key : K) (value : V) (now : Instant) (c : Contents K V) :
    (c.insert p key value now).saveCounts = c.saveCounts :=
  (sheds_insert p key value now c).saveCounts_eq

theorem saveCounts_apply (p : Policy) (c : Contents K V) (action : Action K V) :
    (c.apply p action).contents.saveCounts = c.saveCounts := by
  cases action with
  | get key now =>
    simp only [apply, get]
    split
    · rfl
    · split <;> rfl
  | put key value now => exact saveCounts_insert p key value now c
  | putAll pairs => exact insertAll_keeps (saveCounts_insert p) pairs c
  | remove key => rfl
  | clear => rfl
  | trim now => exact (sheds_purge p now c).saveCounts_eq

theorem saveCounts_load (p : Policy) (now : Instant) (snapshot : List (Entry K V)) :
    (load p now snapshot).contents.saveCounts = (0, 0) :=
  (sheds_load p now snapshot).saveCounts_eq

end Contents

/-! ## What a step preserves -/

namespace Manager
variable {K V : Type}

/-- What has happened so far, told from where the work stands. -/
structure Accounted (persistent : Bool) (j : Journal K V) (m : Manager K V) : Prop where
  published : j.published = m.lifecycle.history
  saves : j.saves.length = j.endings.length + m.phase.pending
  endings : j.endings = j.outcomes ++ m.phase.uncounted
  counts : m.contents.saveCounts = (j.outcomes.count true, j.outcomes.count false)
  cancelled : m.cancelled = true → .cancelled ∈ j
  stopped : m.phase.stopped = true → m.cancelled = true
  lastCopy : (j.savesWhile .draining).length = (persistent && m.phase.pastLastCopy).toNat
  unkept : persistent = false → j.saves = []

theorem Accounted.life_eq {persistent : Bool} {j : Journal K V} {m : Manager K V}
    (h : Accounted persistent j m) : j.life = m.lifecycle := by
  rw [Journal.life, h.published, Lifecycle.getLastD_history]

variable [DecidableEq K] {m m' : Manager K V} {occs : Journal K V}

theorem Moves.history_eq (h : Moves m m' occs) :
    m'.lifecycle.history = m.lifecycle.history ++ occs.published := by
  cases h with
  | skip last hphase | record last _ hphase =>
    cases last <;> simp only [lifecycle, hphase] <;> rfl
  | drain hwaits => rcases hwaits with hwaits | hwaits <;> simp only [lifecycle, hwaits] <;> rfl
  | act | cancel => exact (List.append_nil _).symm
  | load _ _ hphase | wake hphase | elapse hphase | mark hphase | save _ hphase
  | finish _ _ _ hphase | announceDraining hphase | announceClosed hphase =>
    simp only [lifecycle, hphase]
    first | rfl | exact (List.append_nil _).symm

/-- Every save that begins is pending until it ends. -/
theorem Moves.pending_eq (h : Moves m m' occs) :
    m.phase.pending + occs.saves.length = occs.endings.length + m'.phase.pending := by
  cases h with
  | skip last hphase | record last _ hphase => cases last <;> simp only [hphase] <;> rfl
  | drain hwaits => rcases hwaits with hwaits | hwaits <;> simp only [hwaits] <;> rfl
  | act | cancel => exact (Nat.zero_add _).symm
  | load _ _ hphase | wake hphase | elapse hphase | mark hphase | save _ hphase
  | finish _ _ _ hphase | announceDraining hphase | announceClosed hphase =>
    simp only [hphase]
    rfl

/-- Every ending of a save is kept in mind until it is counted. -/
theorem Moves.uncounted_eq (h : Moves m m' occs) :
    m.phase.uncounted ++ occs.endings = occs.outcomes ++ m'.phase.uncounted := by
  cases h with
  | skip last hphase | record last _ hphase => cases last <;> simp only [hphase] <;> rfl
  | drain hwaits => rcases hwaits with hwaits | hwaits <;> simp only [hwaits] <;> rfl
  | act | cancel => exact List.append_nil _
  | load _ _ hphase | wake hphase | elapse hphase | mark hphase | save _ hphase
  | finish _ _ _ hphase | announceDraining hphase | announceClosed hphase =>
    simp only [hphase]
    rfl

/-- The counters of saves count the outcomes; the load sets them to zero. -/
theorem Moves.saveCounts_eq (h : Moves m m' occs)
    (hstart : m.phase = .loading → m.contents.saveCounts = (0, 0)) :
    m'.contents.saveCounts =
      (m.contents.saveCounts.1 + occs.outcomes.count true,
        m.contents.saveCounts.2 + occs.outcomes.count false) := by
  cases h with
  | load snapshot now hphase =>
    rw [hstart hphase]
    exact Contents.saveCounts_load m.policy now snapshot
  | act action => exact Contents.saveCounts_apply m.policy m.contents action
  | record last succeeded => cases succeeded <;> rfl
  | cancel | wake | elapse | mark | save | skip | finish | drain | announceDraining
  | announceClosed => rfl

theorem Moves.cancelled (h : Moves m m' occs) (hafter : m'.cancelled = true) :
    m.cancelled = true ∨ .cancelled ∈ occs := by
  cases h with
  | cancel => exact .inr (List.mem_singleton.mpr rfl)
  | load | act | wake | elapse | mark | save | skip | finish | record | drain | announceDraining
  | announceClosed => exact .inl hafter

/-- The waiting is over only after a shutdown was asked for. -/
theorem Moves.stopped (h : Moves m m' occs) (hstopped : m.phase.stopped = true → m.cancelled = true) :
    m'.phase.stopped = true → m'.cancelled = true := by
  intro hafter
  cases h with
  | cancel => rfl
  | drain _ hcancelled => exact hcancelled
  | act => exact hstopped hafter
  | load | wake | elapse | mark => cases hafter
  | skip last hphase | record last _ hphase =>
    cases last with
    | true => exact hstopped (by rw [hphase]; rfl)
    | false => cases hafter
  | save last hphase | finish last _ _ hphase => exact hstopped (by rw [hphase]; exact hafter)
  | announceDraining hphase | announceClosed hphase => exact hstopped (by rw [hphase]; rfl)

/-- While a cache drains, it hands a snapshot over once, and only if there is someone to take it. -/
theorem Moves.lastCopy_eq (h : Moves m m' occs) :
    (m'.persistent && m'.phase.pastLastCopy).toNat =
      (m.persistent && m.phase.pastLastCopy).toNat +
        (occs.savesFrom .draining m.lifecycle).length := by
  cases h with
  | save last hphase hpersistent =>
    cases last <;> simp only [lifecycle, hphase, hpersistent] <;> rfl
  | skip last hphase hunkept => simp only [hunkept]; rfl
  | record last _ hphase => cases last <;> simp only [hphase] <;> rfl
  | drain hwaits => rcases hwaits with hwaits | hwaits <;> simp only [hwaits] <;> rfl
  | act | cancel => rfl
  | load _ _ hphase | wake hphase | elapse hphase | mark hphase | finish _ _ _ hphase
  | announceDraining hphase | announceClosed hphase =>
    simp only [hphase]
    rfl

theorem Moves.unkept (h : Moves m m' occs) (hunkept : m.persistent = false) : occs.saves = [] := by
  cases h with
  | save _ _ hpersistent => simp [hunkept] at hpersistent
  | load | act | cancel | wake | elapse | mark | skip | finish | record | drain | announceDraining
  | announceClosed => rfl

theorem Accounted.moves {persistent : Bool} {j : Journal K V} (h : Accounted persistent j m)
    (hpersistent : m.persistent = persistent)
    (hstart : m.phase = .loading → m.contents.saveCounts = (0, 0)) (hmoves : Moves m m' occs) :
    Accounted persistent (j ++ occs) m' where
  published := by rw [Journal.published_append, h.published, hmoves.history_eq]
  saves := by
    have hpending := hmoves.pending_eq
    have hsaves := h.saves
    rw [Journal.saves_append, Journal.endings_append, List.length_append, List.length_append]
    omega
  endings := by
    rw [Journal.endings_append, Journal.outcomes_append, h.endings, List.append_assoc,
      hmoves.uncounted_eq, List.append_assoc]
  counts := by
    rw [hmoves.saveCounts_eq hstart, h.counts, Journal.outcomes_append, List.count_append,
      List.count_append]
  cancelled hafter := by
    rcases hmoves.cancelled hafter with hbefore | hnow
    · exact List.mem_append_left _ (h.cancelled hbefore)
    · exact List.mem_append_right _ hnow
  stopped := hmoves.stopped h.stopped
  lastCopy := by
    have hlast := hmoves.lastCopy_eq
    rw [hmoves.policy_eq.2, hpersistent] at hlast
    rw [Journal.savesWhile_append, List.length_append, h.lastCopy, h.life_eq, hlast]
  unkept hunkept := by
    rw [Journal.saves_append, h.unkept hunkept, hmoves.unkept (hpersistent.trans hunkept)]
    rfl

theorem Run.accounted {p : Policy} {persistent : Bool} {j : Journal K V}
    (hrun : Run (Manager.start p persistent) j m) : Accounted persistent j m := by
  refine hrun.induction (P := Accounted persistent) ?_ ?_
  · refine ⟨rfl, rfl, rfl, rfl, fun hcancelled => ?_, fun hstopped => ?_, ?_, fun _ => rfl⟩
    · cases hcancelled
    · cases hstopped
    · cases persistent <;> rfl
  · intro j m m' occs hrun ih hmoves
    refine ih.moves hrun.policy_eq.2 (fun hloading => ?_) hmoves
    rcases hrun.loaded_once with hunloaded | ⟨_, _, -, hfollows⟩
    · rw [hunloaded.contents]
      rfl
    · exact absurd hloading hfollows.loaded

/-! ## The end -/

/-- A run ends in order. -/
structure OrderlyShutdown (p : Policy) (persistent : Bool) (j : Journal K V) : Prop where
  /-- the parts of its life follow one another -/
  order : .initializing :: j.published <+: [.initializing, .ready, .draining, .closed]
  unkept : persistent = false → j.saves = []
  /-- there is never more than one save while it drains, and one before it is closed -/
  atMostOne : (j.savesWhile .draining).length ≤ 1
  exactlyOne : persistent = true → .closed ∈ j.published → (j.savesWhile .draining).length = 1
  /-- that save begins after the shutdown, when every other has ended, with what is held at this
  moment; nothing is handed over after it -/
  lastCopy : ∀ (before after : Journal K V) (copy : List (Entry K V)),
    j = before ++ .saveBegan copy :: after → before.life = .draining →
    .cancelled ∈ before ∧ before.endings.length = before.saves.length ∧ after.saves = [] ∧
      (∃ m, Run (Manager.start p persistent) before m ∧ m.contents.entries = copy) ∧
      ∃ snapshot now, before.loads = [(snapshot, now)] ∧
        copy = (runAll (Entries.apply p) (Contents.load p now snapshot).contents.entries
          before.actions).2
  /-- when it is closed, every save has been counted -/
  closing : ∀ before after : Journal K V, j = before ++ .published .closed :: after →
    before.outcomes.length = before.saves.length ∧ after.saves = [] ∧
      ∃ m, Run (Manager.start p persistent) before m ∧
        m.contents.stats.snapshotSaves = before.outcomes.count true ∧
        m.contents.stats.snapshotFailures = before.outcomes.count false

theorem Run.published_of_save {p : Policy} {persistent : Bool} {j before after : Journal K V}
    {copy : List (Entry K V)} (hrun : Run (Manager.start p persistent) j m)
    (hj : j = before ++ .saveBegan copy :: after) :
    before.published = [.ready] ∨
      (before.published = [.ready, .draining] ∧ before.savesWhile .draining = []) := by
  obtain ⟨mid, last, hmid, hphase, -, -⟩ := hrun.at_save hj
  have haccount := hmid.accounted
  have hpublished := haccount.published
  rw [lifecycle, hphase] at hpublished
  cases last with
  | false => exact .inl hpublished
  | true =>
    have hnone := haccount.lastCopy
    rw [hphase, show (Phase.copying true : Phase K V).pastLastCopy = false from rfl,
      Bool.and_false] at hnone
    exact .inr ⟨hpublished, List.length_eq_zero_iff.mp hnone⟩

/-- Nothing is handed over after the last copy. -/
theorem Run.saves_after_lastCopy {p : Policy} {persistent : Bool} {j before after : Journal K V}
    {copy : List (Entry K V)} (hrun : Run (Manager.start p persistent) j m)
    (hj : j = before ++ .saveBegan copy :: after) (hlife : before.life = .draining) :
    after.saves = [] := by
  refine Journal.saves_eq_nil fun early late other hlater => ?_
  have hsplit : j = (before ++ .saveBegan copy :: early) ++ .saveBegan other :: late := by
    rw [hj, hlater]
    simp
  have hdraining : Lifecycle.draining ∈ before.published := by
    rcases hrun.published_of_save hj with hready | ⟨hpublished, -⟩
    · rw [Journal.life, hready] at hlife
      cases hlife
    · simp [hpublished]
  rcases hrun.published_of_save hsplit with hready | ⟨-, hnone⟩
  · have hmem := List.mem_append_left (Journal.published (.saveBegan copy :: early)) hdraining
    rw [← Journal.published_append, hready] at hmem
    simp at hmem
  · rw [Journal.savesWhile_append, hlife] at hnone
    simp [Journal.savesFrom] at hnone

/-- Nothing is handed over to be saved once others see that the cache is closed. -/
theorem Run.saves_after_closing {p : Policy} {persistent : Bool} {j before after : Journal K V}
    (hrun : Run (Manager.start p persistent) j m) (hj : j = before ++ .published .closed :: after) :
    after.saves = [] := by
  refine Journal.saves_eq_nil fun early late other hlater => ?_
  have hsplit : j = (before ++ .published .closed :: early) ++ .saveBegan other :: late := by
    rw [hj, hlater]
    simp
  have hclosed : Lifecycle.closed ∈
      Journal.published (before ++ .published .closed :: early) := by
    rw [Journal.published_append]
    exact List.mem_append_right _ (List.mem_cons_self ..)
  rcases hrun.published_of_save hsplit with hready | ⟨hdraining, -⟩
  · simp [hready] at hclosed
  · simp [hdraining] at hclosed

/-- However operations, saving and a shutdown interleave, the run of a cache ends in order. -/
theorem run_orderlyShutdown {p : Policy} {persistent : Bool} {j : Journal K V}
    (hrun : Run (Manager.start p persistent) j m) : OrderlyShutdown p persistent j where
  order := by
    rw [hrun.accounted.published]
    exact m.lifecycle.history_prefix
  unkept := hrun.accounted.unkept
  atMostOne := by
    rw [hrun.accounted.lastCopy]
    exact Bool.toNat_le _
  exactlyOne hpersistent hclosed := by
    have hlife : m.phase.lifecycle = .closed := by
      rw [hrun.accounted.published] at hclosed
      exact Lifecycle.closed_of_history hclosed
    rw [hrun.accounted.lastCopy, hpersistent, Phase.pastLastCopy_of_closed hlife]
    rfl
  lastCopy before after copy hj hlife := by
    obtain ⟨mid, last, hmid, hphase, -, hcopy⟩ := hrun.at_save hj
    have haccount := hmid.accounted
    have hlast : last = true := by
      rw [haccount.life_eq, lifecycle, hphase] at hlife
      cases last <;> simp_all [Phase.lifecycle]
    subst hlast
    have hpending := haccount.saves
    rw [hphase] at hpending
    refine ⟨haccount.cancelled (haccount.stopped (by rw [hphase]; rfl)), hpending.symm,
      hrun.saves_after_lastCopy hj hlife, ⟨mid, hmid, hcopy⟩, ?_⟩
    rcases hmid.loaded_once with hunloaded | ⟨snapshot, now, hloads, hfollows⟩
    · rw [hunloaded.phase] at hphase
      cases hphase
    · exact ⟨snapshot, now, hloads, hcopy.symm.trans hfollows.entries⟩
  closing before after hj := by
    obtain ⟨mid, hmid, hphase⟩ := hrun.at_closing hj
    have haccount := hmid.accounted
    have hsaves := haccount.saves
    have hendings := haccount.endings
    have hcounts := haccount.counts
    rw [hphase] at hsaves hendings
    simp only [Phase.pending, Phase.uncounted, Nat.add_zero, List.append_nil] at hsaves hendings
    refine ⟨?_, hrun.saves_after_closing hj, mid, hmid, congrArg Prod.fst hcounts,
      congrArg Prod.snd hcounts⟩
    rw [hsaves, hendings]

/-- The shutdown is asked for while a snapshot is being saved; a key is written before the last copy and
another one after it. -/
theorem run_orderlyShutdown_of_two_saves :
    ∃ (j : Journal Nat Nat) (m : Manager Nat Nat),
      Run (Manager.start smallPolicy true) j m ∧ j.published = [.ready, .draining, .closed] ∧
        j.saves.length = 2 ∧ OrderlyShutdown smallPolicy true j := by
  have hstart : Run (Manager.start smallPolicy true : Manager Nat Nat) [] _ := Run.nil
  have hloaded := hstart.step (.load [] 6) rfl
  have hwritten := hloaded.step (.act (.put 1 10 7)) rfl
  have hwoken := hwritten.step .wake (if_pos (by simp [start, accept, perform, Contents.apply]))
  have hcopied := ((hwoken.step .elapse rfl).step .mark rfl).step .copy rfl
  have hcancelled := hcopied.step .cancel rfl
  have hrecorded := (hcancelled.step (.finish true) rfl).step .record rfl
  have hdraining := (hrecorded.step .drain rfl).step .announce rfl
  have hcovered := hdraining.step (.act (.put 2 20 8)) rfl
  have hlast := hcovered.step .copy rfl
  have hlate := hlast.step (.act (.put 3 30 9)) rfl
  have hrun := ((hlate.step (.finish false) rfl).step .record rfl).step .announce rfl
  exact ⟨_, _, hrun, rfl, rfl, run_orderlyShutdown hrun⟩

end Manager

end ExpiringCache
