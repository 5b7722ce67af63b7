import ExpiringCache.Proofs.EvictionOrder
import ExpiringCache.Proofs.SizeLimit
import Mathlib.Data.List.TakeWhile

/-!
What a cache gives up to keep its limit on the size, and how it counts that. Whatever the clock does, no
more entries are held than the limit allows, and an insertion makes room for one entry: expired entries go
from the front or, if the front has not expired, the oldest entry alone.
-/
namespace ExpiringCache
set_option autoImplicit false

/-! ## Counting -/

namespace Entries
variable {K V : Type} {p : Policy} {now : Instant}

/-- The expired entries at the front, up to the first live one. -/
def expiredFront (p : Policy) (now : Instant) (entries : List (Entry K V)) : List (Entry K V) :=
  entries.takeWhile fun e => p.isExpired e now

theorem isExpired_of_mem_expiredFront {e : Entry K V} {entries : List (Entry K V)}
    (h : e ∈ expiredFront p now entries) : p.isExpired e now = true :=
  List.mem_takeWhile_imp (p := fun e => p.isExpired e now) h

theorem expiredFront_concat {e : Entry K V} (h : p.isExpired e now = false)
    (entries : List (Entry K V)) :
    expiredFront p now (entries ++ [e]) = expiredFront p now entries := by
  induction entries with
  | nil => simp [expiredFront, h]
  | cons x rest ih =>
    simp only [expiredFront, List.cons_append, List.takeWhile_cons] at ih ⊢
    rw [ih]

theorem drop_expiredFront (entries : List (Entry K V)) :
    entries.drop (expiredFront p now entries).length =
      entries.dropWhile fun e => p.isExpired e now :=
  Contents.drop_length_takeWhile _ entries

theorem expiredFront_append_drop (entries : List (Entry K V)) :
    expiredFront p now entries ++ entries.drop (expiredFront p now entries).length = entries := by
  rw [drop_expiredFront]
  exact List.takeWhile_append_dropWhile

theorem length_expiredFront_le (p : Policy) (now : Instant) (entries : List (Entry K V)) :
    (expiredFront p now entries).length ≤ entries.length :=
  (List.takeWhile_sublist _).length_le

end Entries

namespace Contents
variable {K V : Type} {p : Policy} {now : Instant}

theorem stats_purge (p : Policy) (now : Instant) (c : Contents K V) :
    (c.purge p now).2.stats = c.stats.expire (Entries.expiredFront p now c.entries).length := by
  unfold purge
  cases h : p.lifetime with
  | none =>
    have hnone : ∀ e : Entry K V, p.isExpired e now = false := fun e => by simp [Policy.isExpired, h]
    have hfront : Entries.expiredFront p now c.entries = [] := by
      cases hentries : c.entries <;> simp [Entries.expiredFront, hnone]
    rw [hfront]
    rfl
  | some l =>
    have hsome : ∀ e : Entry K V, p.isExpired e now = l.isExpired e now :=
      fun e => by simp [Policy.isExpired, h]
    simp only [Store.removeFrontWhile_eq, Entries.expiredFront, hsome]
    rfl

theorem stats_evict (limit : Nat) (c : Contents K V) :
    (c.evict limit).2.stats = c.stats.evict (c.entries.length - limit) := by
  have hcount : min (c.size - limit) c.size = c.entries.length - limit := by
    rw [size_eq]
    omega
  exact congrArg c.stats.evict hcount

theorem trimToSize_of_within {c : Contents K V} (h : Entries.Within p c.entries) (now : Instant) :
    c.trimToSize p now = (0, c) := by
  unfold trimToSize
  split
  · rfl
  · rename_i limit hlimit
    have hfits : c.size ≤ limit := by
      rw [size_eq]
      exact h limit hlimit
    rw [if_pos hfits]

/-- Contents that do not fit lose the expired entries at the front first, and then as many as are still
too many. -/
theorem trimToSize_of_over {c : Contents K V} {limit : Nat} (hlimit : p.maxSize = some limit)
    (hover : limit < c.entries.length) (now : Instant) :
    let expired := Entries.expiredFront p now c.entries
    let rest := c.entries.drop expired.length
    (c.trimToSize p now).2.entries = rest.drop (rest.length - limit) ∧
      (c.trimToSize p now).2.stats =
        (c.stats.expire expired.length).evict (rest.length - limit) := by
  intro expired rest
  have hpurged : (c.purge p now).2.entries = rest :=
    (entries_purge p now c).trans (Entries.drop_expiredFront c.entries).symm
  have htrim : (c.trimToSize p now).2 = ((c.purge p now).2.evict limit).2 := by
    have hsize : ¬ c.size ≤ limit := by
      rw [size_eq]
      omega
    simp only [trimToSize, hlimit, if_neg hsize]
  rw [htrim, entries_evict, stats_evict, hpurged, stats_purge]
  exact ⟨rfl, rfl⟩

/-- Of `c` some entries were given up, each of them counted, and nothing else was done. -/
def Sheds (c c' : Contents K V) : Prop :=
  ∃ expired evicted, c'.size + expired + evicted = c.size ∧
    c'.stats = (c.stats.expire expired).evict evicted

theorem Sheds.refl (c : Contents K V) : c.Sheds c := ⟨0, 0, rfl, rfl⟩

theorem Sheds.trans {a b c : Contents K V} (hab : a.Sheds b) (hbc : b.Sheds c) : a.Sheds c := by
  obtain ⟨expired, evicted, hsize, hstats⟩ := hab
  obtain ⟨expired', evicted', hsize', hstats'⟩ := hbc
  refine ⟨expired + expired', evicted + evicted', by omega, ?_⟩
  rw [hstats', hstats]
  simp only [Stats.expire, Stats.evict, Nat.add_assoc]

theorem sheds_purge (p : Policy) (now : Instant) (c : Contents K V) : c.Sheds (c.purge p now).2 := by
  have hle := Entries.length_expiredFront_le p now c.entries
  refine ⟨(Entries.expiredFront p now c.entries).length, 0, ?_, stats_purge p now c⟩
  rw [size_eq, entries_purge, ← Entries.drop_expiredFront, List.length_drop, size_eq]
  omega

theorem sheds_evict (limit : Nat) (c : Contents K V) : c.Sheds (c.evict limit).2 := by
  refine ⟨0, c.entries.length - limit, ?_, stats_evict limit c⟩
  rw [size_eq, entries_evict, List.length_drop, size_eq]
  omega

theorem sheds_trimToSize (p : Policy) (now : Instant) (c : Contents K V) :
    c.Sheds (c.trimToSize p now).2 := by
  unfold trimToSize
  split
  · exact .refl c
  · split
    · exact .refl c
    · exact (sheds_purge p now c).trans (sheds_evict _ _)

variable [DecidableEq K]

/-- The contents with a fresh entry for a key, before the limit on the size is kept. -/
def written (key : K) (value : V) (now : Instant) (c : Contents K V) : Contents K V :=
  { c with store := (c.store.remove key).2.put key (Entry.fresh key value now) }

theorem apply_putAll_concat (p : Policy) (earlier : List (K × V × Instant)) (key : K) (value : V)
    (now : Instant) (c : Contents K V) :
    (c.apply p (.putAll (earlier ++ [(key, value, now)]))).contents =
      (c.apply p (.putAll earlier)).contents.insert p key value now := by
  simp only [apply, List.foldl_append, List.foldl_cons, List.foldl_nil]

theorem insert_eq (p : Policy) (key : K) (value : V) (now : Instant) (c : Contents K V) :
    c.insert p key value now = ((c.written key value now).trimToSize p now).2 := rfl

theorem sheds_insert (p : Policy) (key : K) (value : V) (now : Instant) (c : Contents K V) :
    (c.written key value now).Sheds (c.insert p key value now) :=
  sheds_trimToSize p now _

theorem sheds_load (p : Policy) (now : Instant) (snapshot : List (Entry K V)) :
    (restored p snapshot).Sheds (load p now snapshot).contents :=
  sheds_trimToSize p now _

/-- What each insertion keeps is kept when pairs are written one after another. -/
theorem insertAll_keeps {α : Type} {f : Contents K V → α}
    (h : ∀ key value now c, f (c.insert p key value now) = f c) (pairs : List (K × V × Instant))
    (c : Contents K V) :
    f (pairs.foldl (fun c (key, value, now) => c.insert p key value now) c) = f c := by
  induction pairs generalizing c with
  | nil => rfl
  | cons pair pairs ih => exact (ih _).trans (h pair.1 pair.2.1 pair.2.2 c)

theorem entries_written {c : Contents K V} (h : c.store.Keyed) (key : K) (value : V) (now : Instant) :
    (c.written key value now).entries =
      Entries.without key c.entries ++ [Entry.fresh key value now] :=
  Store.entries_remove_put h key _

/-! ## One insertion -/

/-- What an insertion does. A fresh entry comes to the back in place of an earlier one of its key. If there
was no room for it, either some expired entries at the front go, or one live entry, the oldest. -/
inductive InsertionEffect (p : Policy) (key : K) (value : V) (now : Instant) (c c' : Contents K V) :
    Prop
  | fits (entries : c'.entries = Entries.without key c.entries ++ [Entry.fresh key value now])
      (stats : c'.stats = c.stats)
  | expired (gone kept : List (Entry K V)) (absent : key ∉ Entries.keys c.entries)
      (nonempty : gone ≠ []) (front : c.entries = gone ++ kept)
      (dead : ∀ e ∈ gone, p.isExpired e now = true)
      (entries : c'.entries = kept ++ [Entry.fresh key value now])
      (stats : c'.stats = c.stats.expire gone.length)
  | evicted (oldest : Entry K V) (kept : List (Entry K V)) (absent : key ∉ Entries.keys c.entries)
      (front : c.entries = oldest :: kept) (live : p.isExpired oldest now = false)
      (entries : c'.entries = kept ++ [Entry.fresh key value now])
      (stats : c'.stats = c.stats.evict 1)

/-- A key that is held leaves room for its new entry. -/
theorem absent_of_over {key : K} {limit : Nat} {entries : List (Entry K V)}
    (hwithin : entries.length ≤ limit) (hover : limit < (Entries.without key entries).length + 1) :
    key ∉ Entries.keys entries := by
  intro hmem
  obtain ⟨e, he, hkey⟩ := List.mem_map.mp hmem
  have hless : (Entries.without key entries).length < entries.length :=
    List.length_filter_lt_length_iff_exists.mpr ⟨e, he, by simp [hkey]⟩
  omega

/-- Where there is no room for a new key, the expired entries at the front go, or else the oldest entry. -/
theorem insert_of_full {c : Contents K V} {key : K} {limit : Nat} (hkeyed : c.store.Keyed)
    (hlimit : p.maxSize = some limit) (hfull : c.entries.length = limit)
    (habsent : key ∉ Entries.keys c.entries) (value : V) (now : Instant) :
    let expired := (Entries.expiredFront p now c.entries).length
    (c.insert p key value now).entries =
        (c.entries.drop expired ++ [Entry.fresh key value now]).drop (1 - expired) ∧
      (c.insert p key value now).stats = (c.stats.expire expired).evict (1 - expired) := by
  intro expired
  have hle : expired ≤ c.entries.length := Entries.length_expiredFront_le p now c.entries
  have hwritten : (c.written key value now).entries = c.entries ++ [Entry.fresh key value now] := by
    rw [entries_written hkeyed, Entries.without_eq_self habsent]
  -- the new entry lives, so what has expired at the front has expired before it came
  have hfront : Entries.expiredFront p now (c.written key value now).entries =
      Entries.expiredFront p now c.entries := by
    rw [hwritten]
    exact Entries.expiredFront_concat (Policy.isExpired_fresh key value now) c.entries
  have hover : limit < (c.written key value now).entries.length := by
    rw [hwritten, List.length_append, List.length_singleton]
    omega
  have hcount : c.entries.length - expired + 1 - limit = 1 - expired := by omega
  obtain ⟨hentries, hstats⟩ := trimToSize_of_over hlimit hover now
  rw [hfront, hwritten, List.drop_append_of_le_length hle] at hentries hstats
  rw [List.length_append, List.length_drop, List.length_singleton, hcount] at hentries hstats
  exact ⟨hentries, hstats⟩

theorem insertionEffect {c : Contents K V} (hsound : c.Sound p) (hwithin : Entries.Within p c.entries)
    (key : K) (value : V) (now : Instant) :
    InsertionEffect p key value now c (c.insert p key value now) := by
  have hwritten := entries_written hsound.keyed key value now
  by_cases hfits : Entries.Within p (c.written key value now).entries
  · have huntrimmed : c.insert p key value now = c.written key value now := by
      rw [insert_eq, trimToSize_of_within hfits]
    rw [huntrimmed]
    exact .fits hwritten rfl
  · obtain ⟨limit, hlimit, hover⟩ : ∃ limit, p.maxSize = some limit ∧
        limit < (c.written key value now).entries.length := by
      simpa [Entries.Within] using hfits
    rw [hwritten, List.length_append, List.length_singleton] at hover
    have hbefore : c.entries.length ≤ limit := hwithin limit hlimit
    have habsent : key ∉ Entries.keys c.entries := absent_of_over hbefore hover
    have hfull : c.entries.length = limit := by
      rw [Entries.without_eq_self habsent] at hover
      omega
    obtain ⟨hentries, hstats⟩ := insert_of_full hsound.keyed hlimit hfull habsent value now
    cases hgone : Entries.expiredFront p now c.entries with
    | cons e gone =>
      have hnone : 1 - (e :: gone).length = 0 := by
        rw [List.length_cons]
        omega
      rw [hgone, hnone] at hentries hstats
      refine .expired (e :: gone) (c.entries.drop (e :: gone).length) habsent (by simp) ?_ ?_
        hentries hstats
      · rw [← hgone]
        exact (Entries.expiredFront_append_drop c.entries).symm
      · rw [← hgone]
        exact fun x hx => Entries.isExpired_of_mem_expiredFront hx
    | nil =>
      rw [hgone] at hentries hstats
      cases hc : c.entries with
      | nil =>
        have hpos : 0 < limit := p.maxSize_pos limit hlimit
        rw [hc, List.length_nil] at hfull
        omega
      | cons oldest kept =>
        have hlive : p.isExpired oldest now = false := by
          rw [hc, Entries.expiredFront, List.takeWhile_cons] at hgone
          split at hgone
          · cases hgone
          · simp_all
        rw [hc] at hentries
        exact .evicted oldest kept (hc ▸ habsent) hc hlive hentries hstats

end Contents

/-! ## Caches -/

namespace Manager
variable {K V : Type} [DecidableEq K]

/-- A cache holds no more entries than its limit allows, and each pair that is written, alone or after
others of its batch, has the effect of one insertion. -/
structure KeepsLimit (p : Policy) (m : Manager K V) : Prop where
  size_le : ∀ limit, p.maxSize = some limit → m.contents.size ≤ limit
  put : ∀ (key : K) (value : V) (now : Instant),
    Contents.InsertionEffect p key value now m.contents (m.perform (.put key value now)).contents
  putAll : ∀ (earlier : List (K × V × Instant)) (key : K) (value : V) (now : Instant),
    Contents.InsertionEffect p key value now (m.perform (.putAll earlier)).contents
      (m.perform (.putAll (earlier ++ [(key, value, now)]))).contents

/-- Whatever the snapshot holds and however the clock moves, a cache keeps its limit. -/
theorem run_keepsLimit {p : Policy} {persistent : Bool} {m : Manager K V} {j : Journal K V}
    (hrun : Run (Manager.start p persistent) j m) : KeepsLimit p m := by
  have hsound := hrun.sound
  have hwithin := hrun.within
  refine ⟨fun limit hlimit => ?_, fun key value now => ?_, fun earlier key value now => ?_⟩
  · rw [Contents.size_eq]
    exact hwithin limit hlimit
  · rw [hrun.perform_eq]
    exact Contents.insertionEffect hsound hwithin key value now
  · have hsound' := Contents.sound_insertAll earlier hsound
    have hwithin' := Entries.within_insertAll hwithin earlier
    rw [← Contents.entries_insertAll earlier hsound] at hwithin'
    rw [hrun.perform_eq, hrun.perform_eq, Contents.apply_putAll_concat]
    exact Contents.insertionEffect hsound' hwithin' key value now

/-- A key occurs twice in the snapshot, one of its dates is from the future, and the clock goes back before
a batch of two pairs is written. -/
theorem run_keepsLimit_of_batch :
    ∃ (j : Journal Nat Nat) (m : Manager Nat Nat),
      Run (Manager.start smallPolicy false) j m ∧
        j.loads = [([⟨1, 10, 0, 5⟩, ⟨2, 20, 3, 7⟩, ⟨1, 11, 90, 80⟩], 6)] ∧
        Entries.readings j.actions = [2, -4] ∧ KeepsLimit smallPolicy m := by
  have hstart : Run (Manager.start smallPolicy false : Manager Nat Nat) [] _ := Run.nil
  have hloaded := hstart.step (.load [⟨1, 10, 0, 5⟩, ⟨2, 20, 3, 7⟩, ⟨1, 11, 90, 80⟩] 6) rfl
  have hrun := hloaded.step (.act (.putAll [(3, 30, 2), (4, 40, -4)])) rfl
  exact ⟨_, _, hrun, rfl, rfl, run_keepsLimit hrun⟩

end Manager

end ExpiringCache
