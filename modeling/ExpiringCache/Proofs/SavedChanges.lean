import ExpiringCache.Proofs.Journal

/-!
No change is lost between a cache and its snapshots. Whenever the background work rests, with every
signal seen, what is held is what was handed over last.
-/
namespace ExpiringCache
set_option autoImplicit false

namespace Phase
variable {K V : Type}

/-- Whether each change since the last copy, or since the load, shows as an unseen signal. Between
waking up and copying it need not: signals that count as seen by then are answered by the coming copy. -/
def watchful : Phase K V → Bool
  | .idle | .saving _ _ | .recording _ _ => true
  | _ => false

end Phase

namespace Manager
variable {K V : Type} [DecidableEq K]

/-- What is held was handed over last; or nothing has been handed over, and what is held is what the
snapshot gave, of which the load gave up nothing. -/
structure UpToDate (p : Policy) (j : Journal K V) (m : Manager K V) : Prop where
  saved : ∀ copy, j.saves.getLast? = some copy → m.contents.entries = copy
  untouched : j.saves = [] → ∃ snapshot now, j.loads = [(snapshot, now)] ∧
    (Contents.restored p snapshot).trimToSize p now = (0, Contents.restored p snapshot) ∧
    m.contents.store = (Contents.restored p snapshot).store

/-- As long as nothing is loaded or saved and the store stays, a cache stays up to date. -/
theorem UpToDate.unchanged {p : Policy} {j occs : Journal K V} {m m' : Manager K V}
    (h : UpToDate p j m) (hsaves : occs.saves = []) (hloads : occs.loads = [])
    (hstore : m'.contents.store = m.contents.store) : UpToDate p (j ++ occs) m' := by
  have hsaved : (j ++ occs).saves = j.saves := by rw [Journal.saves_append, hsaves, List.append_nil]
  have hloaded : (j ++ occs).loads = j.loads := by rw [Journal.loads_append, hloads, List.append_nil]
  refine ⟨fun copy hcopy => ?_, fun hnone => ?_⟩
  · rw [hsaved] at hcopy
    rw [Contents.entries, hstore]
    exact h.saved copy hcopy
  · rw [hsaved] at hnone
    rw [hloaded, hstore]
    exact h.untouched hnone

/-- Handing over what is held brings a cache up to date. -/
theorem upToDate_save (p : Policy) (j : Journal K V) (m : Manager K V) (last : Bool) :
    UpToDate p (j ++ [.saveBegan m.contents.entries])
      { m with phase := .saving last m.contents.entries } := by
  have hsaves : (j ++ [Occurrence.saveBegan m.contents.entries]).saves =
      j.saves ++ [m.contents.entries] := by
    rw [Journal.saves_append]
    rfl
  refine ⟨fun copy hcopy => ?_, fun hnone => ?_⟩
  · rw [hsaves, List.getLast?_concat] at hcopy
    exact Option.some.inj hcopy
  · rw [hsaves] at hnone
    exact absurd hnone (by simp)

/-- What a step preserves: nothing is handed over before the load; and where the work is watchful, a
cache without an unseen signal is up to date. -/
structure Tracked (p : Policy) (j : Journal K V) (m : Manager K V) : Prop where
  policy : m.policy = p
  persistent : m.persistent = true
  fresh : m.phase = .loading → j.loads = [] ∧ j.saves = []
  upToDate : m.phase.watchful = true → m.unseen = false → UpToDate p j m

theorem Tracked.moves {p : Policy} {j occs : Journal K V} {m m' : Manager K V}
    (h : Tracked p j m) (hmoves : Moves m m' occs) : Tracked p (j ++ occs) m' := by
  have hpolicy : m'.policy = p := hmoves.policy_eq.1.trans h.policy
  have hpersistent : m'.persistent = true := hmoves.policy_eq.2.trans h.persistent
  cases hmoves with
  | load snapshot now hphase =>
    obtain ⟨hloads, hsaves⟩ := h.fresh hphase
    refine ⟨hpolicy, hpersistent, fun hloading => by simp at hloading, fun _ hseen => ?_⟩
    have hquiet : m.unseen = false ∧ (Contents.load m.policy now snapshot).signalled = false := by
      simpa [accept] using hseen
    have huncut := Contents.load_of_unsignalled hquiet.2
    have hcontents : (Contents.load m.policy now snapshot).contents =
        ((Contents.restored m.policy snapshot).trimToSize m.policy now).2 := rfl
    refine ⟨fun copy hcopy => ?_, fun _ => ⟨snapshot, now, ?_, ?_, ?_⟩⟩
    · rw [Journal.saves_append, hsaves] at hcopy
      cases hcopy
    · rw [Journal.loads_append, hloads]
      rfl
    · rw [← h.policy]
      exact huncut
    · rw [huncut] at hcontents
      rw [← h.policy]
      exact congrArg Contents.store hcontents
  | act action hloaded =>
    refine ⟨hpolicy, hpersistent, fun hloading => absurd hloading hloaded, fun hwatch hseen => ?_⟩
    have hquiet : m.unseen = false ∧ (m.perform action).signalled = false := by
      simpa [accept] using hseen
    exact (h.upToDate hwatch hquiet.1).unchanged rfl rfl (Contents.store_of_unsignalled hquiet.2)
  | cancel =>
    refine ⟨hpolicy, hpersistent, fun hloading => ?_, fun hwatch hseen => ?_⟩
    · obtain ⟨hloads, hsaves⟩ := h.fresh hloading
      rw [Journal.loads_append, Journal.saves_append, hloads, hsaves]
      exact ⟨rfl, rfl⟩
    · exact (h.upToDate hwatch hseen).unchanged rfl rfl rfl
  | save last hphase =>
    exact ⟨hpolicy, hpersistent, fun hloading => by simp at hloading,
      fun _ _ => upToDate_save p j m last⟩
  | skip last hphase hunkept => simp [h.persistent] at hunkept
  | finish last copy succeeded hphase =>
    refine ⟨hpolicy, hpersistent, fun hloading => by simp at hloading, fun _ hseen => ?_⟩
    exact (h.upToDate (by simp [hphase, Phase.watchful]) hseen).unchanged rfl rfl rfl
  | record last succeeded hphase =>
    refine ⟨hpolicy, hpersistent, fun hloading => ?_, fun _ hseen => ?_⟩
    · cases last <;> simp [afterSave] at hloading
    · exact (h.upToDate (by simp [hphase, Phase.watchful]) hseen).unchanged rfl rfl rfl
  | wake | elapse | mark | drain | announceDraining | announceClosed =>
    exact ⟨hpolicy, hpersistent, fun hloading => by simp at hloading,
      fun hwatch => by simp [Phase.watchful] at hwatch⟩

/-- However operations interleave with saving, when the background work waits for a change and has seen
every signal, what is held is exactly what was handed over last, or else the snapshot as it was. -/
theorem run_upToDate {p : Policy} {m : Manager K V} {j : Journal K V}
    (hrun : Run (Manager.start p true) j m) (hwaits : m.phase = .idle) (hseen : m.unseen = false) :
    UpToDate p j m := by
  have htracked : Tracked p j m := by
    refine hrun.induction (P := Tracked p)
      ⟨rfl, rfl, fun _ => ⟨rfl, rfl⟩, fun hwatch => ?_⟩ fun j m m' occs _ ih hmoves => ih.moves hmoves
    simp [start, Phase.watchful] at hwatch
  exact htracked.upToDate (by simp [hwaits, Phase.watchful]) hseen

/-- One key is written, and the attempt to save it fails. -/
theorem run_upToDate_of_one :
    ∃ (j : Journal Nat Nat) (m : Manager Nat Nat),
      Run (Manager.start smallPolicy true) j m ∧ m.phase = .idle ∧ m.unseen = false ∧
        j.saves.length = 1 ∧ UpToDate smallPolicy j m := by
  have hstart : Run (Manager.start smallPolicy true : Manager Nat Nat) [] _ := Run.nil
  have hloaded := hstart.step (.load [] 6) rfl
  have hwritten := hloaded.step (.act (.put 1 10 7)) rfl
  have hwoken := hwritten.step .wake (if_pos (by simp [start, accept, perform, Contents.apply]))
  have hmarked := (hwoken.step .elapse rfl).step .mark rfl
  have hcopied := hmarked.step .copy rfl
  have hrun := (hcopied.step (.finish false) rfl).step .record rfl
  exact ⟨_, _, hrun, rfl, rfl, rfl, run_upToDate hrun rfl rfl⟩

end Manager

end ExpiringCache
