import ExpiringCache.Proofs.EagerCache
import Mathlib.Data.List.Forall2
import Mathlib.Data.List.Induction

/-!
Two caches of different sizes that are asked for the same. The larger one never loses a hit: whatever
lives in the smaller cache lives in the larger one, in the same order and with the same dates. What the
larger one holds beyond that is bounded by the room that it has beyond the smaller one, so it never has to
give up what the smaller one keeps.
-/
namespace ExpiringCache
set_option autoImplicit false

open Instant (Ascending latest)

/-! ## Policies -/

namespace Policy
variable {K V : Type} {p q : Policy}

/-- The policy `q` limits life as `p` does, and leaves at least as much room. -/
structure Roomier (p q : Policy) : Prop where
  lifetime : q.lifetime = p.lifetime
  size : ∀ large, q.maxSize = some large → ∃ small, p.maxSize = some small ∧ small ≤ large

theorem timeToIdle_congr (h : q.lifetime = p.lifetime) : q.timeToIdle = p.timeToIdle := by
  rw [timeToIdle, timeToIdle, h]

theorem sortKey_congr (h : q.lifetime = p.lifetime) (e : Entry K V) : q.sortKey e = p.sortKey e := by
  simp only [sortKey, timeToIdle_congr h]

theorem sorted_congr (h : q.lifetime = p.lifetime) (entries : List (Entry K V)) :
    Entries.sorted q entries = Entries.sorted p entries := by
  have hkey : (q.sortKey : Entry K V → Instant) = p.sortKey := funext (sortKey_congr h)
  rw [Entries.sorted, Entries.sorted, hkey]

theorem unexpired_congr (h : q.lifetime = p.lifetime) (now : Instant) (entries : List (Entry K V)) :
    q.unexpired now entries = p.unexpired now entries := by
  simp only [unexpired, isExpired, h]

end Policy

/-! ## Lists of entries -/

/-- What a filter takes from a list it takes from a longer one too. -/
theorem length_filter_add_length_le {α : Type} {small large : List α} (h : small.Sublist large)
    (keep : α → Bool) :
    (large.filter keep).length + small.length ≤ (small.filter keep).length + large.length := by
  induction h with
  | slnil => exact Nat.le_refl _
  | @cons small large a _ ih =>
    have hfirst : ((a :: large).filter keep).length ≤ (large.filter keep).length + 1 := by
      rw [List.filter_cons]
      split <;> simp
    rw [List.length_cons]
    omega
  | @cons_cons small large a _ ih =>
    rw [List.filter_cons, List.filter_cons]
    split
    · simp only [List.length_cons]
      omega
    · simp only [List.length_cons]
      omega

namespace Entries
variable {K V : Type} {p q : Policy} {small large : List (Entry K V)}

/-- The smaller cache holds `small` and the larger one `large`: all of the former and, if both have a limit
on the size, no more beyond it than their limits differ. -/
structure Dominates (p q : Policy) (small large : List (Entry K V)) : Prop where
  sublist : small.Sublist large
  extra : ∀ limit limit', p.maxSize = some limit → q.maxSize = some limit' →
    large.length + limit ≤ small.length + limit'

namespace Dominates

theorem refl (hroom : p.Roomier q) (entries : List (Entry K V)) : Dominates p q entries entries := by
  refine ⟨List.Sublist.refl _, fun limit limit' hlimit hlimit' => ?_⟩
  obtain ⟨least, hleast, hle⟩ := hroom.size limit' hlimit'
  rw [hlimit] at hleast
  cases hleast
  omega

theorem filter (h : Dominates p q small large) (keep : Entry K V → Bool) :
    Dominates p q (small.filter keep) (large.filter keep) := by
  refine ⟨h.sublist.filter keep, fun limit limit' hlimit hlimit' => ?_⟩
  have hbefore := h.extra limit limit' hlimit hlimit'
  have hgone := length_filter_add_length_le h.sublist keep
  omega

theorem concat (h : Dominates p q small large) (e : Entry K V) :
    Dominates p q (small ++ [e]) (large ++ [e]) := by
  refine ⟨h.sublist.append (List.Sublist.refl _), fun limit limit' hlimit hlimit' => ?_⟩
  have hbefore := h.extra limit limit' hlimit hlimit'
  simp only [List.length_append, List.length_singleton]
  omega

theorem map (h : Dominates p q small large) (f : Entry K V → Entry K V) :
    Dominates p q (small.map f) (large.map f) := by
  refine ⟨h.sublist.map f, fun limit limit' hlimit hlimit' => ?_⟩
  simpa only [List.length_map] using h.extra limit limit' hlimit hlimit'

/-- The larger cache gives up an entry for its limit only when the smaller one gives up one too. -/
theorem newest (hroom : p.Roomier q) (h : Dominates p q small large) :
    Dominates p q (Eager.newest p small) (Eager.newest q large) := by
  cases hlimit' : q.maxSize with
  | none =>
    have hall : Eager.newest q large = large := by simp only [Eager.newest, hlimit']
    have hsome : (Eager.newest p small).Sublist small := by
      unfold Eager.newest
      split
      · exact List.Sublist.refl _
      · exact List.drop_sublist _ _
    rw [hall]
    exact ⟨hsome.trans h.sublist, fun _ _ _ hnone => by simp [hlimit'] at hnone⟩
  | some limit' =>
    obtain ⟨limit, hlimit, -⟩ := hroom.size limit' hlimit'
    have hextra := h.extra limit limit' hlimit hlimit'
    have hfewer : large.length - limit' ≤ small.length - limit := by omega
    simp only [Eager.newest, hlimit, hlimit']
    refine ⟨?_, fun least most hleast hmost => ?_⟩
    · exact (List.drop_sublist_drop_left small hfewer).trans (h.sublist.drop _)
    · rw [hlimit] at hleast
      rw [hlimit'] at hmost
      cases hleast
      cases hmost
      simp only [List.length_drop]
      omega

end Dominates

/-! ## Operations -/

variable [DecidableEq K]

/-- An entry that only the larger cache holds may come to its back. -/
theorem Dominates.moved (h : Dominates p q small large) {key : K} (habsent : key ∉ keys small)
    {e : Entry K V} (hfind : find? key large = some e) (now : Instant) :
    Dominates p q small (without key large ++ [e.accessedAt now]) := by
  have hrest := h.filter fun e => e.key ≠ key
  have hsmall : small.filter (fun e => e.key ≠ key) = small := without_eq_self habsent
  rw [hsmall] at hrest
  have hless : (without key large).length < large.length :=
    List.length_filter_lt_length_iff_exists.mpr ⟨e, mem_of_find? hfind, by simp [key_of_find? hfind]⟩
  refine ⟨hrest.sublist.trans (List.sublist_append_left _ _), fun limit limit' hlimit hlimit' => ?_⟩
  have hbefore := h.extra limit limit' hlimit hlimit'
  rw [List.length_append, List.length_singleton]
  omega

/-- An entry that only the larger cache holds may change in place. -/
theorem Dominates.redated (h : Dominates p q small large) {key : K} (habsent : key ∉ keys small)
    (now : Instant) :
    Dominates p q small (large.map fun e => if e.key = key then e.accessedAt now else e) := by
  have hmap := h.map fun e => if e.key = key then e.accessedAt now else e
  have hsmall : small.map (fun e => if e.key = key then e.accessedAt now else e) = small := by
    refine (List.map_congr_left fun e he => ?_).trans (List.map_id _)
    have hne : e.key ≠ key := fun hkey => habsent (hkey ▸ List.mem_map_of_mem he)
    exact if_neg hne
  rwa [hsmall] at hmap

theorem dominates_get (hroom : p.Roomier q) (h : Dominates p q small large) (hnodup : (keys large).Nodup)
    (key : K) (now : Instant) :
    (∀ value, (Eager.get p key now small).1 = some value → (Eager.get q key now large).1 = some value) ∧
      Dominates p q (Eager.get p key now small).2 (Eager.get q key now large).2 := by
  have hlive : Dominates p q (p.unexpired now small) (p.unexpired now large) := h.filter _
  have hnodup' : (keys (p.unexpired now large)).Nodup := hnodup.sublist (List.filter_sublist.map _)
  unfold Eager.get
  rw [Policy.unexpired_congr hroom.lifetime, Policy.timeToIdle_congr hroom.lifetime]
  simp only
  generalize p.unexpired now small = small at hlive ⊢
  generalize p.unexpired now large = large at hlive hnodup' ⊢
  cases hsmall : find? key small with
  | some e =>
    -- both hold the same entry
    have hmem : e ∈ large := hlive.sublist.subset (mem_of_find? hsmall)
    have hlarge : find? key large = some e := by
      cases hfind : find? key large with
      | none =>
        exact absurd (List.mem_map_of_mem hmem) (key_of_find? hsmall ▸ find?_eq_none.mp hfind)
      | some x => rw [eq_of_find? hnodup' hfind hmem (key_of_find? hsmall)]
    rw [hlarge]
    refine ⟨fun _ hvalue => hvalue, ?_⟩
    simp only
    split
    · exact (hlive.filter _).concat _
    · exact hlive.map _
  | none =>
    have habsent : key ∉ keys small := find?_eq_none.mp hsmall
    refine ⟨fun _ hvalue => (by cases hvalue), ?_⟩
    cases hlarge : find? key large with
    | none => exact hlive
    | some e =>
      simp only
      split
      · exact hlive.moved habsent hlarge now
      · exact hlive.redated habsent now

theorem dominates_put (hroom : p.Roomier q) (h : Dominates p q small large) (key : K) (value : V)
    (now : Instant) :
    Dominates p q (Eager.put p key value now small) (Eager.put q key value now large) := by
  unfold Eager.put
  rw [Policy.unexpired_congr hroom.lifetime]
  exact Dominates.newest hroom (((h.filter _).filter _).concat _)

theorem dominates_putAll (hroom : p.Roomier q) (h : Dominates p q small large)
    (pairs : List (K × V × Instant)) :
    Dominates p q
      (pairs.foldl (fun entries (key, value, now) => Eager.put p key value now entries) small)
      (pairs.foldl (fun entries (key, value, now) => Eager.put q key value now entries) large) := by
  induction pairs generalizing small large with
  | nil => exact h
  | cons pair pairs ih => exact ih (dominates_put hroom h pair.1 pair.2.1 pair.2.2)

/-- What one operation finds in the smaller cache it finds in the larger one, and the larger one goes on
to hold all that the smaller one holds. -/
theorem dominates_apply (hroom : p.Roomier q) (h : Dominates p q small large)
    (hnodup : (keys large).Nodup) (action : Action K V) :
    (∀ value, (Eager.apply p small action).1 = some value →
        (Eager.apply q large action).1 = some value) ∧
      Dominates p q (Eager.apply p small action).2 (Eager.apply q large action).2 := by
  cases action with
  | get key now => exact dominates_get hroom h hnodup key now
  | put key value now =>
    exact ⟨fun _ hvalue => (by cases hvalue), dominates_put hroom h key value now⟩
  | putAll pairs => exact ⟨fun _ hvalue => (by cases hvalue), dominates_putAll hroom h pairs⟩
  | remove key => exact ⟨fun _ hvalue => (by cases hvalue), h.filter _⟩
  | clear => exact ⟨fun _ hvalue => (by cases hvalue), Dominates.refl hroom []⟩
  | trim now =>
    refine ⟨fun _ hvalue => (by cases hvalue), ?_⟩
    simp only [Eager.apply, Policy.unexpired_congr hroom.lifetime]
    exact h.filter _

/-! ## Runs -/

/-- Answers to the same questions: whatever value one has, the other has too. -/
abbrev NoHitLost (answers answers' : List (Option V)) : Prop :=
  List.Forall₂ (fun a b => ∀ value, a = some value → b = some value) answers answers'

theorem dominates_runAll {t : Instant} (hroom : p.Roomier q) (hsmall : Ordered p t small)
    (hlarge : Ordered q t large) (h : Dominates p q (p.unexpired t small) (q.unexpired t large))
    {actions : List (Action K V)} (hclock : Ascending t (readings actions)) :
    NoHitLost (runAll (apply p) small actions).1 (runAll (apply q) large actions).1 ∧
      Dominates p q (p.unexpired (latest t (readings actions)) (runAll (apply p) small actions).2)
        (q.unexpired (latest t (readings actions)) (runAll (apply q) large actions).2) := by
  induction actions using List.reverseRecOn with
  | nil => exact ⟨List.Forall₂.nil, h⟩
  | append_singleton actions action ih =>
    rw [readings, List.flatMap_append, List.flatMap_singleton, Instant.ascending_append] at hclock
    obtain ⟨hanswers, hlive⟩ := ih hclock.1
    have hnodup := (ordered_runAll hlarge hclock.1).nodup
    have hnodup' := hnodup.sublist
      (List.filter_sublist (p := fun e => !q.isExpired e (latest t (readings actions))) |>.map _)
    -- both caches act on their live entries as the ideal does
    obtain ⟨hanswer, hafter⟩ := apply_refines (ordered_runAll hsmall hclock.1) hclock.2
    obtain ⟨hanswer', hafter'⟩ := apply_refines (ordered_runAll hlarge hclock.1) hclock.2
    obtain ⟨hhit, hnext⟩ := dominates_apply hroom hlive hnodup' action
    rw [runAll_concat, runAll_concat, readings, List.flatMap_append, List.flatMap_singleton,
      Instant.latest_append]
    refine ⟨List.rel_append hanswers (List.Forall₂.cons ?_ List.Forall₂.nil), ?_⟩
    · rw [hanswer, hanswer']
      exact hhit
    · rw [← hafter, ← hafter'] at hnext
      exact hnext

end Entries

/-! ## Caches -/

namespace Manager
variable {K V : Type} [DecidableEq K]

theorem dominates_load {p q : Policy} (hroom : p.Roomier q) {now : Instant}
    {snapshot : List (Entry K V)} (hkeys : (Entries.keys snapshot).Nodup)
    (hpast : ∀ e ∈ snapshot, e.created ≤ now ∧ e.accessed ≤ now) :
    Entries.Dominates p q (p.unexpired now (Contents.load p now snapshot).contents.entries)
      (q.unexpired now (Contents.load q now snapshot).contents.entries) := by
  have hordered := Entries.ordered_sorted hkeys (Policy.sortKey_le (p := p) hpast)
  have hordered' := Entries.ordered_sorted hkeys (Policy.sortKey_le (p := q) hpast)
  rw [Contents.entries_load p now hkeys, Contents.entries_load q now hkeys,
    Entries.unexpired_cut hordered, Entries.unexpired_cut hordered',
    Policy.unexpired_congr hroom.lifetime, Policy.sorted_congr hroom.lifetime]
  exact Entries.Dominates.newest hroom (Entries.Dominates.refl hroom _)

/-- Two caches load the same and are asked for the same at the same times. Whatever the smaller one finds
the larger one finds, and all that lives in the smaller one lives in the larger one. -/
theorem run_losesNoHit {p q : Policy} {persistent persistent' : Bool} {m m' : Manager K V}
    {j j' : Journal K V} {snapshot : List (Entry K V)} {now : Instant} (hroom : p.Roomier q)
    (hrun : Run (Manager.start p persistent) j m) (hrun' : Run (Manager.start q persistent') j' m')
    (hload : (snapshot, now) ∈ j.loads) (hload' : (snapshot, now) ∈ j'.loads)
    (hsame : j'.actions = j.actions) (hkeys : (Entries.keys snapshot).Nodup)
    (hpast : ∀ e ∈ snapshot, e.created ≤ now ∧ e.accessed ≤ now)
    (hclock : Ascending now (Entries.readings j.actions)) :
    Entries.NoHitLost j.answers j'.answers ∧
      ∀ t, latest now (Entries.readings j.actions) ≤ t →
        (p.unexpired t m.contents.entries).Sublist (q.unexpired t m'.contents.entries) := by
  have hsmall := hrun.follows_load hload
  have hlarge := hrun'.follows_load hload'
  obtain ⟨hanswers, hlive⟩ := Entries.dominates_runAll hroom (Contents.ordered_load p hkeys hpast)
    (Contents.ordered_load q hkeys hpast) (dominates_load hroom hkeys hpast) hclock
  rw [hsmall.answers, hlarge.answers, hsmall.entries, hlarge.entries, hsame]
  refine ⟨hanswers, fun t ht => ?_⟩
  have hlater := hlive.sublist.filter fun e => !p.isExpired e t
  rw [Policy.unexpired_congr hroom.lifetime] at hlater ⊢
  change (p.unexpired t (p.unexpired _ _)).Sublist (p.unexpired t (p.unexpired _ _)) at hlater
  rwa [Policy.unexpired_unexpired ht, Policy.unexpired_unexpired ht] at hlater

/-- A policy with room for one more than the small one. -/
def roomyPolicy : Policy where
  maxSize := some 3
  lifetime := smallPolicy.lifetime
  maxSize_pos := by simp
  shortest_le := smallPolicy.shortest_le

/-- The smaller cache has room for two entries and the larger one for three, of which it gives up none of
the loaded ones. A hit on such an entry moves it in the larger cache only. -/
theorem run_losesNoHit_of_three :
    ∃ (j j' : Journal Nat Nat) (m m' : Manager Nat Nat),
      smallPolicy.Roomier roomyPolicy ∧
        Run (Manager.start smallPolicy false) j m ∧
        Run (Manager.start roomyPolicy true) j' m' ∧
        ([⟨1, 10, 0, 5⟩, ⟨2, 20, 0, 3⟩], 6) ∈ j.loads ∧ ([⟨1, 10, 0, 5⟩, ⟨2, 20, 0, 3⟩], 6) ∈ j'.loads ∧
        j'.actions = j.actions ∧
        (Entries.keys ([⟨1, 10, 0, 5⟩, ⟨2, 20, 0, 3⟩] : List (Entry Nat Nat))).Nodup ∧
        (∀ e ∈ ([⟨1, 10, 0, 5⟩, ⟨2, 20, 0, 3⟩] : List (Entry Nat Nat)),
          e.created ≤ 6 ∧ e.accessed ≤ 6) ∧
        Ascending 6 (Entries.readings j.actions) ∧
        j.answers = [none, none, some 10] ∧ j'.answers = [none, some 20, some 10] ∧
        Entries.NoHitLost j.answers j'.answers ∧
        ∀ t, latest 6 (Entries.readings j.actions) ≤ t →
          (smallPolicy.unexpired t m.contents.entries).Sublist
            (roomyPolicy.unexpired t m'.contents.entries) := by
  have hroom : smallPolicy.Roomier roomyPolicy := by
    refine ⟨rfl, fun large hlarge => ⟨2, rfl, ?_⟩⟩
    cases hlarge
    decide
  have hsorted : ∀ p : Policy, p.timeToIdle.isSome = true →
      Entries.sorted p ([⟨1, 10, 0, 5⟩, ⟨2, 20, 0, 3⟩] : List (Entry Nat Nat)) =
        [⟨2, 20, 0, 3⟩, ⟨1, 10, 0, 5⟩] := by
    intro p hidle
    refine Entries.sorted_eq_of_perm (by decide) ?_ ?_ <;> simp [Policy.sortKey, hidle]
  have hstart : Run (Manager.start smallPolicy false : Manager Nat Nat) [] _ := Run.nil
  have hloaded := hstart.step (.load [⟨1, 10, 0, 5⟩, ⟨2, 20, 0, 3⟩] 6) (step?_load 6 rfl (hsorted _ rfl))
  have hwritten := hloaded.step (.act (.put 3 30 7)) rfl
  have hread := hwritten.step (.act (.get 2 8)) rfl
  have hrun := hread.step (.act (.get 1 9)) rfl
  have hstart' : Run (Manager.start roomyPolicy true : Manager Nat Nat) [] _ :=
    Run.nil
  have hloaded' := hstart'.step (.load [⟨1, 10, 0, 5⟩, ⟨2, 20, 0, 3⟩] 6) (step?_load 6 rfl (hsorted _ rfl))
  have hwritten' := hloaded'.step (.act (.put 3 30 7)) rfl
  have hread' := hwritten'.step (.act (.get 2 8)) rfl
  have hrun' := hread'.step (.act (.get 1 9)) rfl
  have hclock : Ascending 6 [7, 8, 9] := by decide
  -- both runs come to this list, which keeps them from being compared step by step
  let asked : List (Action Nat Nat) := [.put 3 30 7, .get 2 8, .get 1 9]
  have hmain := run_losesNoHit hroom hrun hrun' (List.mem_singleton.mpr rfl) (List.mem_singleton.mpr rfl)
    (Eq.trans (rfl : _ = asked) rfl) (by decide) (by decide) hclock
  exact ⟨_, _, _, _, hroom, hrun, hrun', List.mem_singleton.mpr rfl, List.mem_singleton.mpr rfl,
    Eq.trans (rfl : _ = asked) rfl, by decide, by decide, hclock, rfl, rfl, hmain⟩

end Manager

end ExpiringCache
