import ExpiringCache.Proofs.Trimming

/-!
Which entries a cache gives up while its clock does not go back. What it holds stays in the order of the
policy, so what has expired is exactly what stands before the first live entry. A warning that memory is
low takes all of that and nothing else, and no live entry makes room for others as long as an expired one
is held.
-/
namespace ExpiringCache
set_option autoImplicit false

open Instant (Ascending latest)

/-! ## Contents in order -/

namespace Policy
variable {K V : Type} {p : Policy} {entries : List (Entry K V)}

open Entries (expiredFront)

theorem InOrder.drop_expiredFront (h : p.InOrder entries) (now : Instant) :
    entries.drop (expiredFront p now entries).length = p.unexpired now entries :=
  (Entries.drop_expiredFront entries).trans (dropWhile_isExpired h now)

/-- In order, every expired entry stands at the front. -/
theorem InOrder.length_expiredFront (h : p.InOrder entries) (now : Instant) :
    (expiredFront p now entries).length = entries.countP fun e => p.isExpired e now := by
  have hsplit : expiredFront p now entries ++ p.unexpired now entries = entries := by
    rw [← h.drop_expiredFront now]
    exact Entries.expiredFront_append_drop entries
  have hdead : (expiredFront p now entries).countP (fun e => p.isExpired e now) =
      (expiredFront p now entries).length :=
    List.countP_eq_length.mpr fun e he => Entries.isExpired_of_mem_expiredFront he
  have hlive : (p.unexpired now entries).countP (fun e => p.isExpired e now) = 0 := by
    refine List.countP_eq_zero.mpr fun e he => ?_
    rw [(mem_unexpired.mp he).2]
    exact Bool.false_ne_true
  calc (expiredFront p now entries).length
      = (expiredFront p now entries ++ p.unexpired now entries).countP
          (fun e => p.isExpired e now) := by
        rw [List.countP_append, hdead, hlive, Nat.add_zero]
    _ = entries.countP fun e => p.isExpired e now := by rw [hsplit]

end Policy

namespace Contents
variable {K V : Type} {p : Policy} {t : Instant} {c : Contents K V}

/-- What keeping the limit on the size does to contents in order: nothing, if they fit; otherwise every
expired entry is purged and counted as expired, and of the live ones, which alone are left then, as many go
from the front as are still too many. -/
inductive ExpiredFirst (p : Policy) (now : Instant) (c c' : Contents K V) : Prop
  | fits (unchanged : c' = c)
  | trimmed (limit : Nat) (evicted : List (Entry K V)) (bound : p.maxSize = some limit)
      (exceeded : limit < c.size) (purged : (c.purge p now).2.entries = p.unexpired now c.entries)
      (live : p.unexpired now c.entries = evicted ++ c'.entries)
      (needed : evicted.length = (p.unexpired now c.entries).length - limit)
      (stats : c'.stats =
        (c.stats.expire (c.entries.countP fun e => p.isExpired e now)).evict evicted.length)

theorem expiredFirst_trimToSize (h : p.InOrder c.entries) (now : Instant) :
    ExpiredFirst p now c (c.trimToSize p now).2 := by
  by_cases hfits : Entries.Within p c.entries
  · exact .fits (by rw [trimToSize_of_within hfits])
  · obtain ⟨limit, hlimit, hover⟩ : ∃ limit, p.maxSize = some limit ∧ limit < c.entries.length := by
      simpa [Entries.Within] using hfits
    obtain ⟨hentries, hstats⟩ := trimToSize_of_over hlimit hover now
    rw [h.drop_expiredFront now] at hentries hstats
    rw [h.length_expiredFront now] at hstats
    have hcount : ((p.unexpired now c.entries).take
        ((p.unexpired now c.entries).length - limit)).length =
          (p.unexpired now c.entries).length - limit := by
      rw [List.length_take]
      omega
    refine .trimmed limit _ hlimit (by rwa [size_eq]) ?_ ?_ hcount (by rw [hstats, hcount])
    · exact (entries_purge p now c).trans (Policy.dropWhile_isExpired h now)
    · rw [hentries, List.take_append_drop]

theorem stats_purge_of_inOrder (h : p.InOrder c.entries) (now : Instant) :
    (c.purge p now).2.stats =
      c.stats.expire (c.entries.countP fun e => p.isExpired e now) := by
  rw [stats_purge, h.length_expiredFront now]

variable [DecidableEq K]

/-- A fresh entry keeps contents in order, before the limit on the size is kept. -/
theorem ordered_written (hkeyed : c.store.Keyed) (h : Entries.Ordered p t c.entries) {now : Instant}
    (ht : t ≤ now) (key : K) (value : V) :
    Entries.Ordered p now (c.written key value now).entries := by
  rw [entries_written hkeyed]
  exact (Entries.ordered_without h key).append ht (Entries.not_mem_keys_without key c.entries)
    (Policy.sortKey_fresh key value now)

theorem expiredFirst_insert (hkeyed : c.store.Keyed) (h : Entries.Ordered p t c.entries) {now : Instant}
    (ht : t ≤ now) (key : K) (value : V) :
    ExpiredFirst p now (c.written key value now) (c.insert p key value now) :=
  expiredFirst_trimToSize (ordered_written hkeyed h ht key value).inOrder now

theorem expiredFirst_load (now : Instant) {snapshot : List (Entry K V)}
    (hkeys : (Entries.keys snapshot).Nodup) :
    ExpiredFirst p now (restored p snapshot) (load p now snapshot).contents := by
  refine expiredFirst_trimToSize ?_ now
  rw [entries_restored p hkeys]
  exact Entries.inOrder_sorted p snapshot

end Contents

/-! ## Caches -/

namespace Manager
variable {K V : Type} [DecidableEq K]

/-- What a cache holds is in the order of its policy and none of it is from after `t`, the last reading
of its clock. A trim takes exactly what has expired, and the pairs that are written next, alone or after
others of their batch, cost no live entry as long as an expired one is held. -/
structure GivesUpInOrder (p : Policy) (t : Instant) (m : Manager K V) : Prop where
  keys_nodup : m.contents.store.keys.Nodup
  keyed : m.contents.store.Keyed
  inOrder : p.InOrder m.contents.entries
  past : ∀ e ∈ m.contents.entries, p.sortKey e ≤ t
  trim : ∀ now, (m.perform (.trim now)).contents.entries = p.unexpired now m.contents.entries ∧
    (m.perform (.trim now)).contents.stats =
      m.contents.stats.expire (m.contents.entries.countP fun e => p.isExpired e now)
  put : ∀ (key : K) (value : V) (now : Instant), t ≤ now →
    Contents.ExpiredFirst p now (m.contents.written key value now)
      (m.perform (.put key value now)).contents
  putAll : ∀ (earlier : List (K × V × Instant)) (key : K) (value : V) (now : Instant),
    Ascending t (earlier.map (·.2.2) ++ [now]) →
      Contents.ExpiredFirst p now ((m.perform (.putAll earlier)).contents.written key value now)
        (m.perform (.putAll (earlier ++ [(key, value, now)]))).contents

/-- However operations, saving and a shutdown interleave, from the load on a cache gives up expired
entries before live ones. -/
theorem run_givesUpInOrder {p : Policy} {persistent : Bool} {m : Manager K V} {j : Journal K V}
    {snapshot : List (Entry K V)} {now : Instant} (hrun : Run (Manager.start p persistent) j m)
    (hload : (snapshot, now) ∈ j.loads) (hkeys : (Entries.keys snapshot).Nodup)
    (hpast : ∀ e ∈ snapshot, e.created ≤ now ∧ e.accessed ≤ now)
    (hclock : Ascending now (Entries.readings j.actions)) :
    Contents.ExpiredFirst p now (Contents.restored p snapshot)
        (Contents.load p now snapshot).contents ∧
      GivesUpInOrder p (latest now (Entries.readings j.actions)) m := by
  have hsound := hrun.sound
  have hordered := hrun.ordered hload hkeys hpast hclock
  refine ⟨Contents.expiredFirst_load now hkeys, ?_⟩
  refine ⟨m.contents.store.nodup, hsound.keyed, hordered.inOrder, hordered.past, fun t => ?_,
    fun key value t ht => ?_, fun earlier key value t ht => ?_⟩
  · rw [hrun.perform_eq]
    refine ⟨?_, Contents.stats_purge_of_inOrder hordered.inOrder t⟩
    exact (Contents.entries_purge p t m.contents).trans (hordered.dropWhile_isExpired t)
  · rw [hrun.perform_eq]
    exact Contents.expiredFirst_insert hsound.keyed hordered ht key value
  · obtain ⟨hearlier, hlast⟩ := Instant.ascending_append.mp ht
    have hsound' := Contents.sound_insertAll earlier hsound
    have hordered' := Entries.ordered_insertAll hordered earlier hearlier
    rw [← Contents.entries_insertAll earlier hsound] at hordered'
    rw [hrun.perform_eq, hrun.perform_eq, Contents.apply_putAll_concat]
    exact Contents.expiredFirst_insert hsound'.keyed hordered' (Instant.ascending_cons.mp hlast).1 key
      value

/-- Two entries come from a snapshot, one is read, and a batch is written when the other has expired. -/
theorem run_givesUpInOrder_of_batch :
    ∃ (j : Journal Nat Nat) (m : Manager Nat Nat),
      Run (Manager.start smallPolicy true) j m ∧
        ([⟨1, 10, 0, 5⟩, ⟨2, 20, 0, 0⟩], 6) ∈ j.loads ∧
        (Entries.keys ([⟨1, 10, 0, 5⟩, ⟨2, 20, 0, 0⟩] : List (Entry Nat Nat))).Nodup ∧
        (∀ e ∈ ([⟨1, 10, 0, 5⟩, ⟨2, 20, 0, 0⟩] : List (Entry Nat Nat)),
          e.created ≤ 6 ∧ e.accessed ≤ 6) ∧
        Ascending 6 (Entries.readings j.actions) ∧
        Contents.ExpiredFirst smallPolicy 6
          (Contents.restored smallPolicy [⟨1, 10, 0, 5⟩, ⟨2, 20, 0, 0⟩])
          (Contents.load smallPolicy 6 ([⟨1, 10, 0, 5⟩, ⟨2, 20, 0, 0⟩] : List (Entry Nat Nat))).contents ∧
        GivesUpInOrder smallPolicy (latest 6 (Entries.readings j.actions)) m := by
  have hstart : Run (Manager.start smallPolicy true : Manager Nat Nat) [] _ := Run.nil
  have hloaded := hstart.step (.load [⟨1, 10, 0, 5⟩, ⟨2, 20, 0, 0⟩] 6) rfl
  have hread := hloaded.step (.act (.get 1 9)) rfl
  have hrun := hread.step (.act (.putAll [(3, 30, 14), (4, 40, 15)])) rfl
  have hclock : Ascending 6 [9, 14, 15] := by decide
  exact ⟨_, _, hrun, List.mem_singleton.mpr rfl, by decide, by decide, hclock,
    run_givesUpInOrder hrun (List.mem_singleton.mpr rfl) (by decide) (by decide) hclock⟩

end Manager

end ExpiringCache
