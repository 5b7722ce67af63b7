import ExpiringCache.Proofs.Chronicle
import ExpiringCache.Proofs.ConsistentCuts
import ExpiringCache.Proofs.Shutdown
import Mathlib.Data.Bool.Count

/-!
What saving leaves alone. Which snapshots are saved and when, how long that takes, whether it works, and
when a shutdown is asked for decides nothing but how many saves are counted. What operations find, what is
held and every other counter follow from the entries that were loaded and from the operations.
-/
namespace ExpiringCache
set_option autoImplicit false

variable {K V : Type}

/-! ## Starting -/

/-- What a cache gets for a snapshot when it starts. -/
inductive Reading (K V : Type) where
  /-- nobody keeps its snapshots -/
  | unkept
  | failed
  /-- there may be none -/
  | done (snapshot : Option (List (Entry K V)))

namespace Reading

def isKept : Reading K V → Bool
  | .unkept => false
  | .failed | .done _ => true

/-- The entries to start with. -/
def entries : Reading K V → List (Entry K V)
  | .done (some snapshot) => snapshot
  | .unkept | .failed | .done none => []

end Reading

namespace Simulation.World

def reading (w : World) (backend : Option Nat) : Reading String String :=
  match backend.bind (w.backends[·]?) with
  | none => .unkept
  | some keeper =>
    match keeper.read.1 with
    | none => .failed
    | some data => .done data

/-- A simulated cache is loaded with these entries. -/
theorem loadSnapshot_entries (w : World) (backend : Option Nat) :
    (w.loadSnapshot backend).1 = (w.reading backend).entries := by
  cases backend with
  | none => rfl
  | some b =>
    simp only [loadSnapshot, reading, Option.bind_some]
    cases w.backends[b]? with
    | none => rfl
    | some keeper => rcases hread : keeper.read with ⟨_ | _ | data, after⟩ <;> simp [hread, Reading.entries]

end Simulation.World

/-! ## Counters -/

/-- The counters apart from those of saving. -/
def Stats.traffic (s : Stats) : Stats := { s with snapshotSaves := 0, snapshotFailures := 0 }

theorem Stats.traffic_save (s : Stats) (succeeded : Bool) : (s.save succeeded).traffic = s.traffic := by
  cases succeeded <;> rfl

namespace Contents

def traffic (c : Contents K V) : Contents K V := { c with stats := c.stats.traffic }

theorem purge_traffic (p : Policy) (now : Instant) (c : Contents K V) :
    c.traffic.purge p now = ((c.purge p now).1, (c.purge p now).2.traffic) := by
  unfold purge
  split <;> rfl

theorem trimToSize_traffic (p : Policy) (now : Instant) (c : Contents K V) :
    c.traffic.trimToSize p now = ((c.trimToSize p now).1, (c.trimToSize p now).2.traffic) := by
  have hsize : c.traffic.size = c.size := rfl
  unfold trimToSize
  split
  · rfl
  · rw [hsize]
    split
    · rfl
    · simp only [purge_traffic]
      rfl

variable [DecidableEq K]

theorem insert_traffic (p : Policy) (key : K) (value : V) (now : Instant) (c : Contents K V) :
    c.traffic.insert p key value now = (c.insert p key value now).traffic :=
  congrArg Prod.snd (trimToSize_traffic p now
    { c with store := (c.store.remove key).2.put key (Entry.fresh key value now) })

theorem insertAll_traffic (p : Policy) (pairs : List (K × V × Instant)) (c : Contents K V) :
    pairs.foldl (fun c (key, value, now) => c.insert p key value now) c.traffic =
      (pairs.foldl (fun c (key, value, now) => c.insert p key value now) c).traffic := by
  induction pairs generalizing c with
  | nil => rfl
  | cons pair pairs ih =>
    simp only [List.foldl_cons, insert_traffic, ih]

theorem get_traffic (p : Policy) (key : K) (now : Instant) (c : Contents K V) :
    c.traffic.get p key now =
      { c.get p key now with contents := (c.get p key now).contents.traffic } := by
  have hstore : c.traffic.store = c.store := rfl
  unfold get
  rw [hstore]
  split
  · rfl
  · split <;> rfl

/-- No operation looks at the counters of saving, and none changes them. -/
theorem apply_traffic (p : Policy) (c : Contents K V) (action : Action K V) :
    c.traffic.apply p action =
      { c.apply p action with contents := (c.apply p action).contents.traffic } := by
  cases action with
  | get key now => exact get_traffic p key now c
  | put key value now => simp only [apply, insert_traffic]
  | putAll pairs => simp only [apply, insertAll_traffic]
  | remove key => rfl
  | clear => rfl
  | trim now => simp only [apply, purge_traffic]

theorem load_traffic (p : Policy) (now : Instant) (snapshot : List (Entry K V)) :
    (load p now snapshot).contents.traffic = (load p now snapshot).contents :=
  (congrArg Prod.snd (trimToSize_traffic p now (restored p snapshot))).symm

end Contents

/-! ## Runs -/

namespace Manager
variable [DecidableEq K]

/-- A step of the background work of a loaded cache leaves the traffic alone. -/
theorem Moves.traffic_eq {m m' : Manager K V} {occs : Journal K V} (h : Moves m m' occs)
    (hloaded : m.phase ≠ .loading) :
    m'.contents.traffic = m.contents.traffic.after m.policy occs.actions := by
  cases h with
  | load snapshot now hphase => exact absurd hphase hloaded
  | act action => exact (congrArg Outcome.contents (Contents.apply_traffic m.policy m.contents action)).symm
  | record last succeeded =>
    have hstats := Stats.traffic_save m.contents.stats succeeded
    simp only [Contents.traffic, hstats]
    rfl
  | cancel | wake | elapse | mark | save | skip | finish | drain | announceDraining | announceClosed => rfl

/-- The traffic of a cache is what its operations make of what was loaded. -/
theorem Run.traffic_eq {p : Policy} {persistent : Bool} {m : Manager K V} {j : Journal K V}
    {snapshot : List (Entry K V)} {now : Instant} (hrun : Run (Manager.start p persistent) j m)
    (hload : (snapshot, now) ∈ j.loads) :
    m.contents.traffic = (Contents.load p now snapshot).contents.after p j.actions := by
  refine hrun.induction (P := fun j m => (snapshot, now) ∈ j.loads →
      m.contents.traffic = (Contents.load p now snapshot).contents.after p j.actions)
    (fun hnone => by cases hnone) ?_ hload
  intro j m m' occs hbefore ih hmoves hload
  have hpolicy : m.policy = p := hbefore.policy_eq.1
  rcases hbefore.loaded_once with hunloaded | ⟨_, _, -, hfollows⟩
  · rw [Journal.loads_append, hunloaded.loads] at hload
    rw [Journal.actions_append, hunloaded.actions]
    cases hmoves with
    | load snapshot' now' =>
      cases List.mem_singleton.mp hload
      rw [← hpolicy]
      exact Contents.load_traffic m.policy now snapshot
    | act | cancel | wake | elapse | mark | save | skip | finish | record | drain | announceDraining
    | announceClosed => cases hload
  · have hnone := (hmoves.effect hfollows.loaded).2.1
    rw [Journal.loads_append, hnone, List.append_nil] at hload
    rw [hmoves.traffic_eq hfollows.loaded, ih hload, hpolicy, Journal.actions_append]
    exact (List.foldl_append ..).symm

/-- Who uses two caches cannot tell them apart, unless by the counters of saving. These count all saves whose
outcome was recorded. -/
structure SameTraffic (j j' : Journal K V) (m m' : Manager K V) : Prop where
  answers : j'.answers = j.answers
  entries : m'.contents.entries = m.contents.entries
  size : m'.contents.size = m.contents.size
  counters : m'.contents.report.traffic = m.contents.report.traffic
  recorded : m.contents.report.snapshotSaves + m.contents.report.snapshotFailures = j.outcomes.length
  recorded' :
    m'.contents.report.snapshotSaves + m'.contents.report.snapshotFailures = j'.outcomes.length

omit [DecidableEq K] in
theorem Accounted.recorded {persistent : Bool} {j : Journal K V} {m : Manager K V}
    (h : Accounted persistent j m) :
    m.contents.report.snapshotSaves + m.contents.report.snapshotFailures = j.outcomes.length := by
  have hcounts := Prod.mk.inj h.counts
  change m.contents.stats.snapshotSaves + m.contents.stats.snapshotFailures = j.outcomes.length
  rw [hcounts.1, hcounts.2, List.count_true_add_count_false]

/-- Two caches start with the same entries, if any, and at some point have done the same operations, each at
the same readings of the clock. Whether anybody keeps their snapshots, and all that became of these until
then, makes no difference to their traffic. -/
theorem run_keepsTraffic {p : Policy} (r r' : Reading K V) {now : Instant} {m m' : Manager K V}
    {j j' : Journal K V} (hrun : Run (Manager.start p r.isKept) j m)
    (hrun' : Run (Manager.start p r'.isKept) j' m') (hload : (r.entries, now) ∈ j.loads)
    (hload' : (r'.entries, now) ∈ j'.loads) (hsame : r'.entries = r.entries)
    (hactions : j'.actions = j.actions) : SameTraffic j j' m m' := by
  have htraffic : m'.contents.traffic = m.contents.traffic := by
    rw [hrun.traffic_eq hload, hrun'.traffic_eq hload', hsame, hactions]
  have hstore : m'.contents.traffic.store = m.contents.traffic.store := by rw [htraffic]
  have hfollows := hrun.follows_load hload
  have hfollows' := hrun'.follows_load hload'
  have hreport : m'.contents.traffic.report = m.contents.traffic.report := by rw [htraffic]
  refine ⟨?_, congrArg Store.entries hstore, congrArg Store.size hstore, hreport,
    hrun.accounted.recorded, hrun'.accounted.recorded⟩
  rw [hfollows.answers, hfollows'.answers, hsame, hactions]

end Manager

/-! ## Runs in time -/

variable [DecidableEq K]

/-- All that occurred, whenever it did. -/
def Chronicle.journal (c : Chronicle K V) : Journal K V := c.flatMap Stage.journal

/-- However long signals wait for their snapshot and saves take, a run in time is a run. -/
theorem Scheduled.Timed.run {s₀ s : Scheduled K V} {opening now : Nat} {c : Chronicle K V}
    (h : Timed s₀ opening now c s) : Manager.Run s₀.manager c.journal s.manager := by
  induction h with
  | start => exact .nil
  | pass _ _ _ _ _ ih => exact ih
  | step step _ _ _ possible ih =>
    rw [Chronicle.journal, List.flatMap_append, List.flatMap_singleton]
    exact ih.step step possible

/-- Nobody keeps the snapshots of the one cache. Those of the other one cannot be read; the first save takes
four milliseconds and fails, during the second one the cache is being shut down, and the last write comes when
it is closed. -/
theorem Manager.run_keepsTraffic_of_failure :
    ∃ (j j' : Journal Nat Nat) (m m' : Manager Nat Nat) (r r' : Reading Nat Nat),
      Run (Manager.start smallPolicy r.isKept) j m ∧ Run (Manager.start smallPolicy r'.isKept) j' m' ∧
        (r.entries, 6) ∈ j.loads ∧ (r'.entries, 6) ∈ j'.loads ∧ r'.entries = r.entries ∧
        j'.actions = j.actions ∧ r.isKept = false ∧ j'.outcomes = [false, true] ∧
        j'.published = [.ready, .draining, .closed] ∧ SameTraffic j j' m m' := by
  have hstart : Run (Manager.start smallPolicy false : Manager Nat Nat) [] _ := Run.nil
  have hloaded := hstart.step (.load [] 6) rfl
  have hwritten := hloaded.step (.act (.put 1 10 7)) rfl
  have hread := hwritten.step (.act (.get 1 8)) rfl
  have hrun := hread.step (.act (.put 2 20 9)) rfl
  have hstart' : Scheduled.Timed (⟨Manager.start smallPolicy true, 10, 0⟩ : Scheduled Nat Nat) 0 0 [] _ :=
    .start
  have hloaded' := hstart'.step (.load [] 6) 0 (fun _ h => by cases h; rfl)
    (Manager.step?_load 6 rfl List.mergeSort_nil)
  have hwritten' := hloaded'.step (.act (.put 1 10 7)) 0 (fun _ h => by cases h) rfl
  have hwoken := hwritten'.step .wake 0 (fun _ h => by cases h; rfl) rfl
  have hdue := hwoken.pass 10 rfl (by decide) (fun _ h => by cases h; decide)
  have helapsed := hdue.step .elapse 0 (fun _ h => by cases h; rfl) rfl
  have hmarked := helapsed.step .mark 0 (fun _ h => by cases h; rfl) rfl
  have hcopied := hmarked.step .copy 4 (fun _ h => by cases h; rfl) rfl
  have hsaving := hcopied.pass 12 rfl (by decide) (fun _ h => by cases h; decide)
  have hread' := hsaving.step (.act (.get 1 8)) 0 (fun _ h => by cases h) rfl
  have hending := hread'.pass 14 rfl (by decide) (fun _ h => by cases h; decide)
  have hfailed := hending.step (.finish false) 0 (fun _ h => by cases h; rfl) rfl
  have hrecorded := hfailed.step .record 0 (fun _ h => by cases h; rfl) rfl
  have hcancelled := hrecorded.step .cancel 0 (fun _ h => by cases h) rfl
  have hdrained := hcancelled.step .drain 0 (fun _ h => by cases h; rfl) rfl
  have hdraining := hdrained.step .announce 0 (fun _ h => by cases h; rfl) rfl
  have hlast := hdraining.step .copy 2 (fun _ h => by cases h; rfl) rfl
  have hended := hlast.pass 16 rfl (by decide) (fun _ h => by cases h; decide)
  have hsaved := hended.step (.finish true) 0 (fun _ h => by cases h; rfl) rfl
  have hcounted := hsaved.step .record 0 (fun _ h => by cases h; rfl) rfl
  have hclosed := hcounted.step .announce 0 (fun _ h => by cases h; rfl) rfl
  have hrun' := (hclosed.step (.act (.put 2 20 9)) 0 (fun _ h => by cases h) rfl).run
  -- both runs come to this list, which keeps them from being compared step by step
  let asked : List (Action Nat Nat) := [.put 1 10 7, .get 1 8, .put 2 20 9]
  have hmain := run_keepsTraffic .unkept .failed hrun hrun' (List.mem_singleton.mpr rfl)
    (List.mem_singleton.mpr rfl) rfl (Eq.trans (rfl : _ = asked) rfl)
  exact ⟨_, _, _, _, .unkept, .failed, hrun, hrun', List.mem_singleton.mpr rfl, List.mem_singleton.mpr rfl,
    rfl, Eq.trans (rfl : _ = asked) rfl, rfl, rfl, rfl, hmain⟩

end ExpiringCache
