import ExpiringCache.Proofs.Journal
import Mathlib.Data.List.Induction
import Mathlib.Data.List.Nodup

/-!
The order in which a cache gives its entries up. While the readings of the clock do not decrease, the
entries held stay in the order of the policy, no two of them share a key, and none is from the future.
Then passing over the expired entries at the front passes over all that have expired.
-/
namespace ExpiringCache
set_option autoImplicit false

/-! ## Readings -/

def Action.readings {K V : Type} : Action K V → List Instant
  | .get _ now => [now]
  | .put _ _ now => [now]
  | .putAll pairs => pairs.map (·.2.2)
  | .remove _ => []
  | .clear => []
  | .trim now => [now]

namespace Instant

/-- Readings from `t` on that never decrease. -/
def Ascending (t : Instant) (readings : List Instant) : Prop := (t :: readings).Pairwise (· ≤ ·)

instance (t : Instant) (readings : List Instant) : Decidable (Ascending t readings) :=
  inferInstanceAs (Decidable ((t :: readings).Pairwise (· ≤ ·)))

/-- The last reading, or `t` if there is none. -/
def latest (t : Instant) (readings : List Instant) : Instant := readings.getLastD t

@[simp] theorem latest_nil (t : Instant) : latest t [] = t := rfl

@[simp] theorem latest_cons (t now : Instant) (readings : List Instant) :
    latest t (now :: readings) = latest now readings := by
  cases readings <;> rfl

theorem latest_append (t : Instant) (as bs : List Instant) :
    latest t (as ++ bs) = latest (latest t as) bs := by
  induction as generalizing t with
  | nil => rfl
  | cons a as ih => simp [ih]

theorem ascending_nil (t : Instant) : Ascending t [] := by
  simp [Ascending]

theorem ascending_cons {t now : Instant} {readings : List Instant} :
    Ascending t (now :: readings) ↔ t ≤ now ∧ Ascending now readings := by
  unfold Ascending
  rw [List.pairwise_cons]
  constructor
  · exact fun h => ⟨h.1 now (by simp), h.2⟩
  · rintro ⟨ht, h⟩
    refine ⟨fun later hlater => ?_, h⟩
    rcases List.mem_cons.mp hlater with rfl | hlater
    · exact ht
    · exact Int64.le_trans ht ((List.pairwise_cons.mp h).1 later hlater)

theorem ascending_append {t : Instant} {as bs : List Instant} :
    Ascending t (as ++ bs) ↔ Ascending t as ∧ Ascending (latest t as) bs := by
  induction as generalizing t with
  | nil => simp [ascending_nil]
  | cons a as ih => simp [ascending_cons, ih, and_assoc]

end Instant

open Instant (Ascending latest)

/-! ## The invariant -/

namespace Entries
variable {K V : Type} {p : Policy}

/-- The entries have different keys, are in the order of the policy, and are none from after
`latest`. -/
structure Ordered (p : Policy) (latest : Instant) (entries : List (Entry K V)) : Prop where
  nodup : (keys entries).Nodup
  inOrder : p.InOrder entries
  past : ∀ e ∈ entries, p.sortKey e ≤ latest

namespace Ordered
variable {t now : Instant} {entries : List (Entry K V)}

theorem nil (p : Policy) (t : Instant) : Ordered p t ([] : List (Entry K V)) :=
  ⟨List.nodup_nil, List.Pairwise.nil, by simp⟩

theorem later (h : Ordered p t entries) (ht : t ≤ now) : Ordered p now entries :=
  ⟨h.nodup, h.inOrder, fun e he => Int64.le_trans (h.past e he) ht⟩

theorem sublist {some : List (Entry K V)} (h : Ordered p t entries) (hsub : some.Sublist entries) :
    Ordered p t some :=
  ⟨h.nodup.sublist (hsub.map _), h.inOrder.sublist hsub, fun e he => h.past e (hsub.subset he)⟩

/-- A new key goes to the back, at an instant that is no earlier. -/
theorem append (h : Ordered p t entries) (ht : t ≤ now) {e : Entry K V}
    (hkey : e.key ∉ keys entries) (he : p.sortKey e = now) : Ordered p now (entries ++ [e]) := by
  refine ⟨?_, ?_, ?_⟩
  · rw [keys, List.map_append, List.nodup_append]
    refine ⟨h.nodup, by simp, ?_⟩
    intro a ha b hb hab
    simp only [List.map_cons, List.map_nil, List.mem_singleton] at hb
    exact hkey (hb ▸ hab ▸ ha)
  · rw [Policy.InOrder, List.pairwise_append]
    refine ⟨h.inOrder, by simp, ?_⟩
    intro a ha b hb
    rw [List.mem_singleton.mp hb, he]
    exact Int64.le_trans (h.past a ha) ht
  · intro x hx
    rcases List.mem_append.mp hx with hx | hx
    · exact Int64.le_trans (h.past x hx) ht
    · rw [List.mem_singleton.mp hx, he]
      exact Int64.le_refl now

/-- Entries may change in place, as long as their keys and their instants stay. -/
theorem map (h : Ordered p t entries) {f : Entry K V → Entry K V} (hkey : ∀ e, (f e).key = e.key)
    (hsort : ∀ e, p.sortKey (f e) = p.sortKey e) : Ordered p t (entries.map f) := by
  refine ⟨?_, ?_, ?_⟩
  · have hkeys : keys (entries.map f) = keys entries := by
      rw [keys, keys, List.map_map]
      exact List.map_congr_left fun e _ => hkey e
    rw [hkeys]
    exact h.nodup
  · rw [Policy.InOrder, List.pairwise_map]
    exact h.inOrder.imp fun hab => by rwa [hsort, hsort]
  · intro e he
    obtain ⟨x, hx, rfl⟩ := List.mem_map.mp he
    rw [hsort]
    exact h.past x hx

theorem dropWhile_isExpired (h : Ordered p t entries) (now : Instant) :
    entries.dropWhile (fun e => p.isExpired e now) = p.unexpired now entries :=
  Policy.dropWhile_isExpired h.inOrder now

theorem cut (h : Ordered p t entries) (now : Instant) : Ordered p t (Entries.cut p now entries) :=
  h.sublist (sublist_cut p now entries)

end Ordered

/-! ## The beginning -/

theorem mem_sorted {snapshot : List (Entry K V)} {e : Entry K V} :
    e ∈ sorted p snapshot ↔ e ∈ snapshot :=
  (List.mergeSort_perm snapshot _).mem_iff

theorem inOrder_sorted (p : Policy) (snapshot : List (Entry K V)) : p.InOrder (sorted p snapshot) := by
  have h := @List.pairwise_mergeSort _ (fun a b : Entry K V => decide (p.sortKey a ≤ p.sortKey b))
    (fun a b c hab hbc => by
      simp only [decide_eq_true_eq] at hab hbc ⊢
      exact Int64.le_trans hab hbc)
    (fun a b => by simpa using Int64.le_total (p.sortKey a) (p.sortKey b)) snapshot
  simpa [Policy.InOrder, sorted] using h

/-- Entries that stand at different instants can be put in order in one way only. -/
theorem sorted_eq_of_perm {snapshot entries : List (Entry K V)} (hperm : entries.Perm snapshot)
    (horder : entries.Pairwise fun a b => p.sortKey a ≤ p.sortKey b) (hapart : (entries.map p.sortKey).Nodup) :
    sorted p snapshot = entries := by
  have hsorted : (sorted p snapshot).Perm entries := (List.mergeSort_perm snapshot _).trans hperm.symm
  refine hsorted.eq_of_pairwise (fun a b ha hb hab hba => ?_) (inOrder_sorted p snapshot) horder
  exact List.inj_on_of_nodup_map hapart (hsorted.mem_iff.mp ha) hb (Int64.le_antisymm hab hba)

theorem ordered_sorted {now : Instant} {snapshot : List (Entry K V)} (hkeys : (keys snapshot).Nodup)
    (hpast : ∀ e ∈ snapshot, p.sortKey e ≤ now) : Ordered p now (sorted p snapshot) where
  nodup := ((List.mergeSort_perm snapshot _).map _).nodup_iff.mpr hkeys
  inOrder := inOrder_sorted p snapshot
  past e he := hpast e (mem_sorted.mp he)

/-! ## Steps -/

variable [DecidableEq K] {t now : Instant} {entries : List (Entry K V)}

theorem ordered_without (h : Ordered p t entries) (key : K) : Ordered p t (without key entries) :=
  h.sublist List.filter_sublist

theorem ordered_insert (h : Ordered p t entries) (ht : t ≤ now) (key : K) (value : V) :
    Ordered p now (insert p key value now entries) :=
  ((ordered_without h key).append ht (not_mem_keys_without key entries)
    (Policy.sortKey_fresh key value now)).cut now

theorem ordered_insertAll (h : Ordered p t entries) (pairs : List (K × V × Instant))
    (hclock : Ascending t (pairs.map (·.2.2))) :
    Ordered p (latest t (pairs.map (·.2.2)))
      (pairs.foldl (fun entries (key, value, now) => insert p key value now entries) entries) := by
  induction pairs generalizing t entries with
  | nil => exact h
  | cons pair pairs ih =>
    obtain ⟨ht, hrest⟩ := Instant.ascending_cons.mp hclock
    simpa using ih (ordered_insert h ht pair.1 pair.2.1) hrest

theorem ordered_touch (h : Ordered p t entries) (ht : t ≤ now) (key : K) :
    Ordered p now (touch p key now entries) := by
  unfold touch
  cases hidle : p.timeToIdle.isSome with
  | true =>
    rw [if_pos rfl]
    cases hfind : find? key entries with
    | none => simpa using (ordered_without h key).later ht
    | some e =>
      have hkey : (e.accessedAt now).key = key := (e.key_accessedAt now).trans (key_of_find? hfind)
      refine (ordered_without h key).append ht ?_ (Policy.sortKey_accessedAt_of_idle hidle e now)
      rw [hkey]
      exact not_mem_keys_without key entries
  | false =>
    refine (h.map (fun e => ?_) (fun e => ?_)).later ht
    · split <;> rfl
    · split
      · exact Policy.sortKey_accessedAt hidle e now
      · rfl

theorem ordered_get (h : Ordered p t entries) (ht : t ≤ now) (key : K) :
    Ordered p now (get p key now entries).2 := by
  unfold get
  split
  · exact h.later ht
  · split
    · exact (ordered_without h key).later ht
    · exact ordered_touch h ht key

/-- Every operation keeps the entries in order, up to its last reading. -/
theorem ordered_apply (h : Ordered p t entries) {action : Action K V}
    (hclock : Ascending t action.readings) :
    Ordered p (latest t action.readings) (apply p entries action).2 := by
  cases action with
  | get key now => exact ordered_get h (Instant.ascending_cons.mp hclock).1 key
  | put key value now => exact ordered_insert h (Instant.ascending_cons.mp hclock).1 key value
  | putAll pairs => exact ordered_insertAll h pairs hclock
  | remove key => exact ordered_without h key
  | clear => exact Ordered.nil p t
  | trim now =>
    exact (h.sublist (List.dropWhile_sublist _)).later (Instant.ascending_cons.mp hclock).1

/-! ## Runs -/

def readings (actions : List (Action K V)) : List Instant := actions.flatMap Action.readings

theorem ordered_runAll (h : Ordered p t entries) {actions : List (Action K V)}
    (hclock : Ascending t (readings actions)) :
    Ordered p (latest t (readings actions)) (runAll (apply p) entries actions).2 := by
  induction actions using List.reverseRecOn with
  | nil => exact h
  | append_singleton actions action ih =>
    rw [readings, List.flatMap_append, List.flatMap_singleton, Instant.ascending_append] at hclock
    rw [runAll_concat, readings, List.flatMap_append, List.flatMap_singleton, Instant.latest_append]
    exact ordered_apply (ih hclock.1) hclock.2

end Entries

/-- An instant from which neither date of an entry is far is one from which its sort key is not. -/
theorem Policy.sortKey_le {K V : Type} {p : Policy} {now : Instant} {snapshot : List (Entry K V)}
    (h : ∀ e ∈ snapshot, e.created ≤ now ∧ e.accessed ≤ now) :
    ∀ e ∈ snapshot, p.sortKey e ≤ now := by
  intro e he
  unfold Policy.sortKey
  split
  · exact (h e he).2
  · exact (h e he).1

theorem Contents.ordered_load {K V : Type} [DecidableEq K] (p : Policy) {now : Instant}
    {snapshot : List (Entry K V)} (hkeys : (Entries.keys snapshot).Nodup)
    (hpast : ∀ e ∈ snapshot, e.created ≤ now ∧ e.accessed ≤ now) :
    Entries.Ordered p now (Contents.load p now snapshot).contents.entries := by
  rw [Contents.entries_load p now hkeys]
  exact (Entries.ordered_sorted hkeys (Policy.sortKey_le hpast)).cut now

/-- What a cache holds stays in order as long as the clock does not go back. -/
theorem Manager.Run.ordered {K V : Type} [DecidableEq K] {p : Policy} {persistent : Bool}
    {m : Manager K V} {j : Journal K V} {snapshot : List (Entry K V)} {now : Instant}
    (hrun : Run (Manager.start p persistent) j m) (hload : (snapshot, now) ∈ j.loads)
    (hkeys : (Entries.keys snapshot).Nodup)
    (hpast : ∀ e ∈ snapshot, e.created ≤ now ∧ e.accessed ≤ now)
    (hclock : Ascending now (Entries.readings j.actions)) :
    Entries.Ordered p (latest now (Entries.readings j.actions)) m.contents.entries := by
  rw [(hrun.follows_load hload).entries]
  exact Entries.ordered_runAll (Contents.ordered_load p hkeys hpast) hclock

end ExpiringCache
