import ExpiringCache.Contents
import ExpiringCache.Proofs.Expiry
import ExpiringCache.Proofs.StoreEntries

/-!
What each operation makes of the list of entries that a cache holds. The list alone decides what an
operation finds and which list it leaves behind; how the store keeps its slots no longer matters.
-/
namespace ExpiringCache
set_option autoImplicit false

/-! ## On lists of entries -/

namespace Entries
variable {K V : Type}

/-- The entries that are left once a limit on the size is kept at `now`. -/
def cut (p : Policy) (now : Instant) (entries : List (Entry K V)) : List (Entry K V) :=
  match p.maxSize with
  | none => entries
  | some limit =>
    if entries.length ≤ limit then entries
    else
      let live := entries.dropWhile fun e => p.isExpired e now
      live.drop (live.length - limit)

def sorted (p : Policy) (entries : List (Entry K V)) : List (Entry K V) :=
  entries.mergeSort fun a b => p.sortKey a ≤ p.sortKey b

theorem sublist_cut (p : Policy) (now : Instant) (entries : List (Entry K V)) :
    (cut p now entries).Sublist entries := by
  unfold cut
  split
  · exact List.Sublist.refl _
  · split
    · exact List.Sublist.refl _
    · exact (List.drop_sublist _ _).trans (List.dropWhile_sublist _)

theorem length_cut_le {p : Policy} {limit : Nat} (h : p.maxSize = some limit) (now : Instant)
    (entries : List (Entry K V)) : (cut p now entries).length ≤ limit := by
  simp only [cut, h]
  split
  · assumption
  · rw [List.length_drop]
    omega

variable [DecidableEq K]

def insert (p : Policy) (key : K) (value : V) (now : Instant) (entries : List (Entry K V)) :
    List (Entry K V) :=
  cut p now (without key entries ++ [Entry.fresh key value now])

/-- The entries after a hit: if use prolongs life the entry goes to the back. -/
def touch (p : Policy) (key : K) (now : Instant) (entries : List (Entry K V)) : List (Entry K V) :=
  if p.timeToIdle.isSome then
    without key entries ++ (find? key entries).toList.map fun e => e.accessedAt now
  else entries.map fun e => if e.key = key then e.accessedAt now else e

def get (p : Policy) (key : K) (now : Instant) (entries : List (Entry K V)) :
    Option V × List (Entry K V) :=
  match find? key entries with
  | none => (none, entries)
  | some e =>
    if p.isExpired e now then (none, without key entries)
    else (some e.value, touch p key now entries)

def apply (p : Policy) (entries : List (Entry K V)) : Action K V → Option V × List (Entry K V)
  | .get key now => get p key now entries
  | .put key value now => (none, insert p key value now entries)
  | .putAll pairs =>
    (none, pairs.foldl (fun entries (key, value, now) => insert p key value now entries) entries)
  | .remove key => (none, without key entries)
  | .clear => (none, [])
  | .trim now => (none, entries.dropWhile fun e => p.isExpired e now)

end Entries

/-! ## On contents -/

namespace Contents
variable {K V : Type} {p : Policy}

/-- The store keeps the order of the policy, and each entry stands under its own key. -/
structure Sound (p : Policy) (c : Contents K V) : Prop where
  order : c.store.order = p.order
  keyed : c.store.Keyed

theorem order_eq_access (h : p.timeToIdle.isSome = true) : p.order = .access := by
  simp [Policy.order, h]

theorem order_eq_insertion (h : p.timeToIdle.isSome = false) : p.order = .insertion := by
  simp [Policy.order, h]

theorem size_eq (c : Contents K V) : c.size = c.entries.length := c.store.size_eq

/-! ### Limits -/

theorem drop_length_takeWhile {α : Type} (accept : α → Bool) (l : List α) :
    l.drop (l.takeWhile accept).length = l.dropWhile accept := by
  calc l.drop (l.takeWhile accept).length
      = (l.takeWhile accept ++ l.dropWhile accept).drop (l.takeWhile accept).length := by
        rw [List.takeWhile_append_dropWhile]
    _ = l.dropWhile accept := List.drop_left

theorem entries_purge (p : Policy) (now : Instant) (c : Contents K V) :
    (c.purge p now).2.entries = c.entries.dropWhile fun e => p.isExpired e now := by
  unfold purge
  cases h : p.lifetime with
  | none =>
    have hnone : ∀ e : Entry K V, p.isExpired e now = false := fun e => by simp [Policy.isExpired, h]
    cases c.entries <;> simp [hnone]
  | some l =>
    have hsome : ∀ e : Entry K V, p.isExpired e now = l.isExpired e now :=
      fun e => by simp [Policy.isExpired, h]
    simp only [Store.removeFrontWhile_eq, entries, Store.entries_drop, hsome]
    exact drop_length_takeWhile _ _

theorem sound_purge (now : Instant) {c : Contents K V} (h : c.Sound p) : (c.purge p now).2.Sound p := by
  unfold purge
  cases p.lifetime with
  | none => exact h
  | some l =>
    simp only [Store.removeFrontWhile_eq]
    exact ⟨h.order, Store.keyed_drop h.keyed _⟩

theorem entries_evict (limit : Nat) (c : Contents K V) :
    (c.evict limit).2.entries = c.entries.drop (c.entries.length - limit) := by
  simp only [evict, Store.removeFront, entries, Store.entries_drop, size, Store.size_eq]

theorem sound_evict (limit : Nat) {c : Contents K V} (h : c.Sound p) : (c.evict limit).2.Sound p :=
  ⟨h.order, Store.keyed_drop h.keyed _⟩

theorem entries_trimToSize (p : Policy) (now : Instant) (c : Contents K V) :
    (c.trimToSize p now).2.entries = Entries.cut p now c.entries := by
  unfold trimToSize Entries.cut
  cases p.maxSize with
  | none => rfl
  | some limit =>
    simp only [size_eq]
    split
    · rfl
    · rw [entries_evict, entries_purge]

theorem sound_trimToSize (now : Instant) {c : Contents K V} (h : c.Sound p) :
    (c.trimToSize p now).2.Sound p := by
  unfold trimToSize
  split
  · exact h
  · split
    · exact h
    · exact sound_evict _ (sound_purge now h)

/-- Whatever goes is counted, so contents of which nothing went are as they were. -/
theorem trimToSize_of_none {now : Instant} {c : Contents K V} (h : (c.trimToSize p now).1 = 0) :
    c.trimToSize p now = (0, c) := by
  unfold trimToSize at h ⊢
  split
  · rfl
  · rename_i limit hlimit
    split
    · rfl
    · rename_i hover
      simp only [hlimit, if_neg hover] at h
      have hexpired : (c.purge p now).1 = 0 := by omega
      have hevicted : ((c.purge p now).2.evict limit).1 = 0 := by omega
      have hsize : (c.purge p now).2.size = c.size - (c.purge p now).1 := by
        unfold purge
        split
        · rfl
        · simp [Store.removeFrontWhile_eq, size, Store.size, Store.drop]
      simp only [evict, Store.removeFront] at hevicted
      change min ((c.purge p now).2.size - limit) (c.purge p now).2.size = 0 at hevicted
      omega

variable [DecidableEq K]

/-! ### Operations -/

theorem entries_insert (key : K) (value : V) (now : Instant) {c : Contents K V} (h : c.Sound p) :
    (c.insert p key value now).entries = Entries.insert p key value now c.entries := by
  rw [insert, entries_trimToSize, Entries.insert]
  exact congrArg (Entries.cut p now) (Store.entries_remove_put h.keyed key _)

theorem sound_insert (key : K) (value : V) (now : Instant) {c : Contents K V} (h : c.Sound p) :
    (c.insert p key value now).Sound p :=
  sound_trimToSize now
    ⟨by simpa using h.order, Store.keyed_put (Store.keyed_remove h.keyed key) rfl⟩

theorem entries_insertAll (pairs : List (K × V × Instant)) {c : Contents K V} (h : c.Sound p) :
    (pairs.foldl (fun c (key, value, now) => c.insert p key value now) c).entries =
      pairs.foldl (fun entries (key, value, now) => Entries.insert p key value now entries)
        c.entries := by
  induction pairs generalizing c with
  | nil => rfl
  | cons pair pairs ih =>
    obtain ⟨key, value, now⟩ := pair
    rw [List.foldl_cons, List.foldl_cons, ih (sound_insert key value now h), entries_insert _ _ _ h]

theorem sound_insertAll (pairs : List (K × V × Instant)) {c : Contents K V} (h : c.Sound p) :
    (pairs.foldl (fun c (key, value, now) => c.insert p key value now) c).Sound p := by
  induction pairs generalizing c with
  | nil => exact h
  | cons pair pairs ih => exact ih (sound_insert pair.1 pair.2.1 pair.2.2 h)

/-- An expired entry that is asked for goes, whatever became of its place before. -/
theorem entries_remove_get {key : K} {c : Contents K V} (h : c.Sound p) :
    ((c.store.get key).2.remove key).2.entries = Entries.without key c.entries := by
  cases hfind : c.store.find? key with
  | none => rw [Store.get_of_absent hfind, Store.entries_remove h.keyed]; rfl
  | some e =>
    have hkey : e.key = key := Entries.key_of_find? ((Store.find?_eq h.keyed key).symm.trans hfind)
    cases horder : c.store.order with
    | insertion => rw [Store.get_insertion horder, Store.entries_remove h.keyed]; rfl
    | access =>
      rw [Store.get_access horder hfind, Store.entries_remove (Store.keyed_put h.keyed hkey),
        Store.entries_put_access h.keyed horder, Entries.without_append, Entries.without_without,
        Entries.without_singleton hkey, List.append_nil]
      rfl

/-- A hit leaves the entry where the order of the policy wants it. -/
theorem entries_put_get {key : K} {e : Entry K V} {c : Contents K V} (h : c.Sound p)
    (hfind : c.store.find? key = some e) (now : Instant) :
    ((c.store.get key).2.put key (e.accessedAt now)).entries = Entries.touch p key now c.entries := by
  have hfound : Entries.find? key c.entries = some e := (Store.find?_eq h.keyed key).symm.trans hfind
  have hkey : e.key = key := Entries.key_of_find? hfound
  unfold Entries.touch
  cases hidle : p.timeToIdle.isSome with
  | true =>
    have horder : c.store.order = .access := h.order.trans (order_eq_access hidle)
    have hput : (c.store.put key e).order = .access := (Store.order_put _ _ _).trans horder
    rw [Store.get_access horder hfind, Store.entries_put_access (Store.keyed_put h.keyed hkey) hput,
      Store.entries_put_access h.keyed horder, Entries.without_append, Entries.without_without,
      Entries.without_singleton hkey, List.append_nil, if_pos rfl, hfound]
    rfl
  | false =>
    have horder : c.store.order = .insertion := h.order.trans (order_eq_insertion hidle)
    have hmem : key ∈ Entries.keys c.store.entries := by
      rw [← hkey]
      exact List.mem_map_of_mem (Entries.mem_of_find? hfound)
    rw [Store.get_insertion horder, Store.entries_put_present h.keyed horder hmem, if_neg (by simp)]
    refine List.map_congr_left fun x hx => ?_
    split
    · rename_i hxkey
      rw [Entries.eq_of_find? (Store.nodup_keys_entries h.keyed) hfound hx hxkey]
    · rfl

theorem sound_get_store (key : K) {c : Contents K V} (h : c.Sound p) :
    (c.store.get key).2.order = p.order ∧ (c.store.get key).2.Keyed := by
  cases hfind : c.store.find? key with
  | none => rw [Store.get_of_absent hfind]; exact ⟨h.order, h.keyed⟩
  | some e =>
    have hkey : e.key = key := Entries.key_of_find? ((Store.find?_eq h.keyed key).symm.trans hfind)
    cases horder : c.store.order with
    | insertion => rw [Store.get_insertion horder]; exact ⟨h.order, h.keyed⟩
    | access =>
      rw [Store.get_access horder hfind]
      exact ⟨(Store.order_put _ _ _).trans h.order, Store.keyed_put h.keyed hkey⟩

theorem fst_get (key : K) (s : Store K V) : (s.get key).1 = s.find? key := by
  unfold Store.get
  split <;> simp_all

theorem entries_get (key : K) (now : Instant) {c : Contents K V} (h : c.Sound p) :
    ((c.get p key now).value, (c.get p key now).contents.entries) =
      Entries.get p key now c.entries := by
  unfold Entries.get
  rw [← show c.store.find? key = Entries.find? key c.entries from Store.find?_eq h.keyed key]
  cases hfind : c.store.find? key with
  | none => simp only [get, Store.get_of_absent hfind]; rfl
  | some e =>
    have hget : c.store.get key = (some e, (c.store.get key).2) :=
      Prod.ext ((fst_get key c.store).trans hfind) rfl
    unfold get
    rw [hget]
    simp only
    split
    · exact Prod.ext rfl (entries_remove_get h)
    · exact Prod.ext rfl (entries_put_get h hfind now)

theorem sound_get (key : K) (now : Instant) {c : Contents K V} (h : c.Sound p) :
    (c.get p key now).contents.Sound p := by
  obtain ⟨horder, hkeyed⟩ := sound_get_store key h
  unfold get
  split
  · rename_i hget
    rw [hget] at horder hkeyed
    exact ⟨horder, hkeyed⟩
  · rename_i e store hget
    have hfind : c.store.find? key = some e := by rw [← fst_get, hget]
    have hkey : e.key = key := Entries.key_of_find? ((Store.find?_eq h.keyed key).symm.trans hfind)
    rw [hget] at horder hkeyed
    split
    · exact ⟨horder, Store.keyed_remove hkeyed key⟩
    · exact ⟨(Store.order_put _ _ _).trans horder, Store.keyed_put hkeyed hkey⟩

/-- The entries held decide what an operation finds and which entries it leaves. -/
theorem entries_apply (action : Action K V) {c : Contents K V} (h : c.Sound p) :
    ((c.apply p action).value, (c.apply p action).contents.entries) =
      Entries.apply p c.entries action := by
  cases action with
  | get key now => exact entries_get key now h
  | put key value now => exact Prod.ext rfl (entries_insert key value now h)
  | putAll pairs => exact Prod.ext rfl (entries_insertAll pairs h)
  | remove key => exact Prod.ext rfl (Store.entries_remove h.keyed key)
  | clear => rfl
  | trim now => exact Prod.ext rfl (entries_purge p now c)

theorem sound_apply (action : Action K V) {c : Contents K V} (h : c.Sound p) :
    (c.apply p action).contents.Sound p := by
  cases action with
  | get key now => exact sound_get key now h
  | put key value now => exact sound_insert key value now h
  | putAll pairs => exact sound_insertAll pairs h
  | remove key => exact ⟨h.order, Store.keyed_remove h.keyed key⟩
  | clear => exact ⟨h.order, Store.keyed_clear _⟩
  | trim now => exact sound_purge now h

/-- An operation that signals nothing leaves every entry in its place. -/
theorem store_of_unsignalled {c : Contents K V} {action : Action K V}
    (h : (c.apply p action).signalled = false) : (c.apply p action).contents.store = c.store := by
  cases action with
  | get key now =>
    simp only [apply, get] at h ⊢
    split at h
    · rename_i store hget
      have habsent : c.store.find? key = none := by rw [← fst_get, hget]
      rw [Store.get_of_absent habsent] at hget
      exact (Prod.mk.inj hget).2.symm
    · split at h <;> cases h
  | put _ _ _ | putAll _ | remove _ | clear | trim _ => cases h

/-! ### Loading -/

/-- What a snapshot gives before the limit on the size is kept. -/
def restored (p : Policy) (snapshot : List (Entry K V)) : Contents K V :=
  { store := (Store.empty p.order).putAll (Entries.sorted p snapshot) }

theorem load_of_sorted {snapshot sorted : List (Entry K V)} (now : Instant)
    (h : Entries.sorted p snapshot = sorted) :
    load p now snapshot =
      let (removed, c) := trimToSize p now { store := (Store.empty p.order).putAll sorted }
      { contents := c, signalled := 0 < removed } := by
  subst h
  rfl

/-- A load that signals nothing takes the snapshot over as it is. -/
theorem load_of_unsignalled {now : Instant} {snapshot : List (Entry K V)}
    (h : (load p now snapshot).signalled = false) :
    (restored p snapshot).trimToSize p now = (0, restored p snapshot) := by
  refine trimToSize_of_none ?_
  have hcount : decide (0 < ((restored p snapshot).trimToSize p now).1) = false := h
  have hnone := of_decide_eq_false hcount
  omega

theorem sound_load (p : Policy) (now : Instant) (snapshot : List (Entry K V)) :
    (load p now snapshot).contents.Sound p :=
  sound_trimToSize now ⟨Store.order_putAll _ _, Store.keyed_putAll (Store.keyed_empty _) _⟩

/-- A snapshot in which no key occurs twice is loaded in the order of the policy. -/
theorem entries_restored (p : Policy) {snapshot : List (Entry K V)}
    (h : (Entries.keys snapshot).Nodup) :
    (restored p snapshot).entries = Entries.sorted p snapshot := by
  have hnodup : (Entries.keys (Entries.sorted p snapshot)).Nodup :=
    ((List.mergeSort_perm snapshot _).map _).nodup_iff.mpr h
  exact Store.entries_putAll (Store.keyed_empty _) hnodup

theorem entries_load (p : Policy) (now : Instant) {snapshot : List (Entry K V)}
    (h : (Entries.keys snapshot).Nodup) :
    (load p now snapshot).contents.entries = Entries.cut p now (Entries.sorted p snapshot) := by
  rw [← entries_restored p h]
  exact entries_trimToSize p now _

end Contents

end ExpiringCache
