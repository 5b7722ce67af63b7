import ExpiringCache.Proofs.EvictionOrder

/-!
The ideal of a cache: at every reading of the clock all expired entries go, and only live ones take up
room. A cache gives up expired entries late, at the front only, and mostly when it has no room left. Main
statement: while the clock does not go back, nobody who asks for keys can tell the two apart, and the live
entries of the cache are the entries of the ideal.
-/
namespace ExpiringCache
set_option autoImplicit false

open Instant (Ascending latest)

/-! ## The ideal -/

namespace Eager
variable {K V : Type}

/-- The last entries, as many as the limit on the size allows. -/
def newest (p : Policy) (entries : List (Entry K V)) : List (Entry K V) :=
  match p.maxSize with
  | none => entries
  | some limit => entries.drop (entries.length - limit)

/-- The last unexpired entries of a snapshot in the order of the policy. -/
def load (p : Policy) (now : Instant) (snapshot : List (Entry K V)) : List (Entry K V) :=
  newest p (p.unexpired now (Entries.sorted p snapshot))

variable [DecidableEq K]

/-- A key is found if it is held. Its entry counts as read now and, if use prolongs life, goes to the
back. -/
def get (p : Policy) (key : K) (now : Instant) (entries : List (Entry K V)) :
    Option V × List (Entry K V) :=
  let live := p.unexpired now entries
  match Entries.find? key live with
  | none => (none, live)
  | some e =>
    (some e.value,
      if p.timeToIdle.isSome then Entries.without key live ++ [e.accessedAt now]
      else live.map fun x => if x.key = key then x.accessedAt now else x)

/-- The key's old entry goes, a fresh one comes to the back, and the oldest go if there is no room. -/
def put (p : Policy) (key : K) (value : V) (now : Instant) (entries : List (Entry K V)) :
    List (Entry K V) :=
  newest p (Entries.without key (p.unexpired now entries) ++ [Entry.fresh key value now])

def apply (p : Policy) (entries : List (Entry K V)) : Action K V → Option V × List (Entry K V)
  | .get key now => get p key now entries
  | .put key value now => (none, put p key value now entries)
  | .putAll pairs =>
    (none, pairs.foldl (fun entries (key, value, now) => put p key value now entries) entries)
  | .remove key => (none, Entries.without key entries)
  | .clear => (none, [])
  | .trim now => (none, p.unexpired now entries)

end Eager

/-! ## Live entries -/

namespace Entries
variable {K V : Type} {p : Policy} {t now : Instant} {entries : List (Entry K V)}

theorem unexpired_newest (entries : List (Entry K V)) :
    p.unexpired now (Eager.newest p (p.unexpired now entries)) =
      Eager.newest p (p.unexpired now entries) := by
  refine Policy.unexpired_eq_self fun e he => ?_
  have hsub : (Eager.newest p (p.unexpired now entries)).Sublist (p.unexpired now entries) := by
    unfold Eager.newest
    split
    · exact List.Sublist.refl _
    · exact List.drop_sublist _ _
  exact (Policy.mem_unexpired.mp (hsub.subset he)).2

/-- Giving up the expired entries first, a cache gives up a live one only if the live ones alone are too
many. -/
theorem unexpired_cut (h : Ordered p now entries) :
    p.unexpired now (cut p now entries) = Eager.newest p (p.unexpired now entries) := by
  cases hsize : p.maxSize with
  | none => simp only [cut, Eager.newest, hsize]
  | some limit =>
    by_cases hfits : entries.length ≤ limit
    · have hlive := Policy.length_unexpired_le (p := p) now entries
      have hnone : (p.unexpired now entries).length - limit = 0 := by omega
      simp only [cut, Eager.newest, hsize, if_pos hfits, hnone, List.drop_zero]
    · have hcut : cut p now entries = Eager.newest p (p.unexpired now entries) := by
        simp only [cut, Eager.newest, hsize, if_neg hfits, h.dropWhile_isExpired now]
      rw [hcut, unexpired_newest]

variable [DecidableEq K]

theorem unexpired_without (key : K) (entries : List (Entry K V)) :
    p.unexpired now (without key entries) = without key (p.unexpired now entries) :=
  List.filter_comm _ _ _

/-- Among the live entries a key finds its entry, unless that has expired. -/
theorem find?_unexpired (hnodup : (keys entries).Nodup) (key : K) :
    find? key (p.unexpired now entries) = (find? key entries).filter fun e => !p.isExpired e now := by
  cases hfind : find? key entries with
  | none =>
    have habsent : key ∉ keys (p.unexpired now entries) := fun hkey =>
      find?_eq_none.mp hfind ((List.filter_sublist.map _).subset hkey)
    exact find?_eq_none.mpr habsent
  | some e =>
    cases hlive : find? key (p.unexpired now entries) with
    | none =>
      cases hexp : p.isExpired e now with
      | true => exact (Option.filter_some_neg (by simp [hexp])).symm
      | false =>
        have hmem : e ∈ p.unexpired now entries := Policy.mem_unexpired.mpr ⟨mem_of_find? hfind, hexp⟩
        exact absurd (List.mem_map_of_mem hmem) (key_of_find? hfind ▸ find?_eq_none.mp hlive)
    | some x =>
      obtain ⟨hmem, hexp⟩ := Policy.mem_unexpired.mp (mem_of_find? hlive)
      have hx : x = e := eq_of_find? hnodup hfind hmem (key_of_find? hlive)
      rw [← hx]
      exact (Option.filter_some_pos (by simp [hexp])).symm

/-! ## Operations -/

theorem unexpired_insert (h : Ordered p t entries) (ht : t ≤ now) (key : K) (value : V) :
    p.unexpired now (insert p key value now entries) =
      Eager.put p key value now (p.unexpired t entries) := by
  have hordered : Ordered p now (without key entries ++ [Entry.fresh key value now]) :=
    (ordered_without h key).append ht (not_mem_keys_without key entries)
      (Policy.sortKey_fresh key value now)
  have hfresh : p.unexpired now [Entry.fresh key value now] = [Entry.fresh key value now] :=
    Policy.unexpired_eq_self (by simp)
  rw [insert, unexpired_cut hordered, Policy.unexpired_append, hfresh, unexpired_without, Eager.put,
    Policy.unexpired_unexpired ht]

theorem unexpired_insertAll (h : Ordered p t entries) (pairs : List (K × V × Instant))
    (hclock : Ascending t (pairs.map (·.2.2))) :
    p.unexpired (latest t (pairs.map (·.2.2)))
        (pairs.foldl (fun entries (key, value, now) => insert p key value now entries) entries) =
      pairs.foldl (fun entries (key, value, now) => Eager.put p key value now entries)
        (p.unexpired t entries) := by
  induction pairs generalizing t entries with
  | nil => rfl
  | cons pair pairs ih =>
    obtain ⟨ht, hrest⟩ := Instant.ascending_cons.mp hclock
    have hrun := ih (ordered_insert h ht pair.1 pair.2.1) hrest
    rw [unexpired_insert h ht] at hrun
    simpa using hrun

theorem unexpired_touch {key : K} {e : Entry K V} (hfind : find? key entries = some e) :
    p.unexpired now (touch p key now entries) =
      if p.timeToIdle.isSome then without key (p.unexpired now entries) ++ [e.accessedAt now]
      else (p.unexpired now entries).map fun x => if x.key = key then x.accessedAt now else x := by
  unfold touch
  cases hidle : p.timeToIdle.isSome with
  | true =>
    have hlive : p.isExpired (e.accessedAt now) now = false :=
      Policy.isExpired_eq_false (by rw [Policy.sortKey_accessedAt_of_idle hidle]; exact Int64.le_refl now)
    have hback : p.unexpired now [e.accessedAt now] = [e.accessedAt now] :=
      Policy.unexpired_eq_self (by simp [hlive])
    rw [if_pos rfl, if_pos rfl, hfind, Policy.unexpired_append, unexpired_without]
    exact congrArg _ hback
  | false =>
    rw [if_neg (by simp), if_neg (by simp), Policy.unexpired, Policy.unexpired, List.filter_map]
    congr 1
    refine List.filter_congr fun x _ => ?_
    have hsort : p.sortKey (if x.key = key then x.accessedAt now else x) = p.sortKey x := by
      split
      · exact Policy.sortKey_accessedAt hidle x now
      · rfl
    simp only [Function.comp_apply, Policy.isExpired_congr hsort]

theorem get_refines (h : Ordered p t entries) (ht : t ≤ now) (key : K) :
    (get p key now entries).1 = (Eager.get p key now (p.unexpired t entries)).1 ∧
      p.unexpired now (get p key now entries).2 =
        (Eager.get p key now (p.unexpired t entries)).2 := by
  have hlive : find? key (p.unexpired now entries) =
      (find? key entries).filter fun e => !p.isExpired e now := find?_unexpired h.nodup key
  unfold get Eager.get
  simp only [Policy.unexpired_unexpired ht, hlive]
  cases hfind : find? key entries with
  | none => exact ⟨rfl, rfl⟩
  | some e =>
    rw [hfind] at hlive
    cases hexp : p.isExpired e now with
    | true =>
      rw [Option.filter_some_neg (by simp [hexp])] at hlive ⊢
      simp only [hexp, if_true]
      rw [unexpired_without, without_eq_self (find?_eq_none.mp hlive)]
      exact ⟨trivial, rfl⟩
    | false =>
      rw [Option.filter_some_pos (by simp [hexp])]
      simp only [hexp, Bool.false_eq_true, if_false]
      exact ⟨trivial, unexpired_touch hfind⟩

/-- One operation finds the same in a cache as in the ideal that holds its live entries, and leaves live
what it leaves there. -/
theorem apply_refines (h : Ordered p t entries) {action : Action K V}
    (hclock : Ascending t action.readings) :
    (apply p entries action).1 = (Eager.apply p (p.unexpired t entries) action).1 ∧
      p.unexpired (latest t action.readings) (apply p entries action).2 =
        (Eager.apply p (p.unexpired t entries) action).2 := by
  cases action with
  | get key now => exact get_refines h (Instant.ascending_cons.mp hclock).1 key
  | put key value now =>
    exact ⟨rfl, unexpired_insert h (Instant.ascending_cons.mp hclock).1 key value⟩
  | putAll pairs => exact ⟨rfl, unexpired_insertAll h pairs hclock⟩
  | remove key => exact ⟨rfl, unexpired_without key entries⟩
  | clear => exact ⟨rfl, rfl⟩
  | trim now =>
    have ht : t ≤ now := (Instant.ascending_cons.mp hclock).1
    refine ⟨rfl, ?_⟩
    simp only [apply, Eager.apply, h.dropWhile_isExpired now, Policy.unexpired_unexpired ht,
      Action.readings, Instant.latest_cons, Instant.latest_nil]
    exact Policy.unexpired_unexpired (Int64.le_refl now) entries

/-! ## Runs -/

theorem runAll_refines (h : Ordered p t entries) {actions : List (Action K V)}
    (hclock : Ascending t (readings actions)) :
    (runAll (apply p) entries actions).1 =
        (runAll (Eager.apply p) (p.unexpired t entries) actions).1 ∧
      p.unexpired (latest t (readings actions)) (runAll (apply p) entries actions).2 =
        (runAll (Eager.apply p) (p.unexpired t entries) actions).2 := by
  induction actions using List.reverseRecOn with
  | nil => exact ⟨rfl, rfl⟩
  | append_singleton actions action ih =>
    rw [readings, List.flatMap_append, List.flatMap_singleton, Instant.ascending_append] at hclock
    obtain ⟨hanswers, hentries⟩ := ih hclock.1
    obtain ⟨hanswer, hafter⟩ := apply_refines (ordered_runAll h hclock.1) hclock.2
    rw [runAll_concat, runAll_concat, readings, List.flatMap_append, List.flatMap_singleton,
      Instant.latest_append, ← hentries]
    exact ⟨by rw [hanswers, hanswer], hafter⟩

end Entries

/-! ## Caches -/

namespace Manager
variable {K V : Type} [DecidableEq K]

/-- However its operations interleave with its background work and a shutdown, a cache answers like the
ideal, and its live entries are those of the ideal. -/
theorem run_refines_eager {p : Policy} {persistent : Bool} {m : Manager K V} {j : Journal K V}
    {snapshot : List (Entry K V)} {now : Instant} (hrun : Run (Manager.start p persistent) j m)
    (hload : (snapshot, now) ∈ j.loads) (hkeys : (Entries.keys snapshot).Nodup)
    (hpast : ∀ e ∈ snapshot, e.created ≤ now ∧ e.accessed ≤ now)
    (hclock : Ascending now (Entries.readings j.actions)) :
    j.answers = (runAll (Eager.apply p) (Eager.load p now snapshot) j.actions).1 ∧
      p.unexpired (latest now (Entries.readings j.actions)) m.contents.entries =
        (runAll (Eager.apply p) (Eager.load p now snapshot) j.actions).2 := by
  have hfollows := hrun.follows_load hload
  have hordered := Contents.ordered_load p hkeys hpast
  have hlive : p.unexpired now (Contents.load p now snapshot).contents.entries =
      Eager.load p now snapshot := by
    rw [Contents.entries_load p now hkeys,
      Entries.unexpired_cut (Entries.ordered_sorted hkeys (Policy.sortKey_le hpast)), Eager.load]
  rw [hfollows.answers, hfollows.entries, ← hlive]
  exact Entries.runAll_refines hordered hclock

/-- Two entries come from a snapshot, one of them is read, a third one is written, and when the first is
asked for it has gone. -/
theorem run_refines_eager_of_two :
    ∃ (j : Journal Nat Nat) (m : Manager Nat Nat),
      Run (Manager.start smallPolicy true) j m ∧
        ([⟨1, 10, 0, 5⟩, ⟨2, 20, 0, 0⟩], 6) ∈ j.loads ∧
        (Entries.keys ([⟨1, 10, 0, 5⟩, ⟨2, 20, 0, 0⟩] : List (Entry Nat Nat))).Nodup ∧
        (∀ e ∈ ([⟨1, 10, 0, 5⟩, ⟨2, 20, 0, 0⟩] : List (Entry Nat Nat)),
          e.created ≤ 6 ∧ e.accessed ≤ 6) ∧
        Ascending 6 (Entries.readings j.actions) ∧
        j.answers = (runAll (Eager.apply smallPolicy)
            (Eager.load smallPolicy 6 [⟨1, 10, 0, 5⟩, ⟨2, 20, 0, 0⟩]) j.actions).1 ∧
        smallPolicy.unexpired (latest 6 (Entries.readings j.actions)) m.contents.entries =
          (runAll (Eager.apply smallPolicy)
            (Eager.load smallPolicy 6 [⟨1, 10, 0, 5⟩, ⟨2, 20, 0, 0⟩]) j.actions).2 := by
  have hstart : Run (Manager.start smallPolicy true : Manager Nat Nat) [] _ := Run.nil
  have hloaded := hstart.step (.load [⟨1, 10, 0, 5⟩, ⟨2, 20, 0, 0⟩] 6) rfl
  have hread := hloaded.step (.act (.get 2 8)) rfl
  have hwritten := hread.step (.act (.putAll [(3, 30, 9), (4, 40, 9)])) rfl
  have hrun := hwritten.step (.act (.get 1 12)) rfl
  have hclock : Ascending 6 [8, 9, 9, 12] := by decide
  exact ⟨_, _, hrun, List.mem_singleton.mpr rfl, by decide, by decide, hclock,
    run_refines_eager hrun (List.mem_singleton.mpr rfl) (by decide) (by decide) hclock⟩

end Manager

end ExpiringCache
