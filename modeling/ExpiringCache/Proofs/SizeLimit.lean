import ExpiringCache.Proofs.Journal
import Mathlib.Data.List.Induction

/-!
The limit on the size. After the load and after every operation a cache holds no more entries than its
policy allows, whatever the clock does.
-/
namespace ExpiringCache
set_option autoImplicit false

namespace Entries
variable {K V : Type} {p : Policy}

/-- There are no more entries than the policy allows. -/
def Within (p : Policy) (entries : List (Entry K V)) : Prop :=
  ∀ limit, p.maxSize = some limit → entries.length ≤ limit

theorem Within.of_length_le {es entries : List (Entry K V)} (h : Within p entries)
    (hle : es.length ≤ entries.length) : Within p es :=
  fun limit hlimit => Nat.le_trans hle (h limit hlimit)

theorem Within.sublist {es entries : List (Entry K V)} (h : Within p entries)
    (hsub : es.Sublist entries) : Within p es :=
  h.of_length_le hsub.length_le

theorem within_cut (p : Policy) (now : Instant) (entries : List (Entry K V)) :
    Within p (cut p now entries) :=
  fun _ hlimit => length_cut_le hlimit now entries

variable [DecidableEq K] {entries : List (Entry K V)}

theorem within_insertAll (h : Within p entries) (pairs : List (K × V × Instant)) :
    Within p (pairs.foldl (fun entries (key, value, now) => insert p key value now entries) entries) := by
  induction pairs generalizing entries with
  | nil => exact h
  | cons pair pairs ih => exact ih (within_cut p pair.2.2 _)

/-- A hit moves an entry, but adds none. -/
theorem length_touch_le (p : Policy) (key : K) (now : Instant) (entries : List (Entry K V)) :
    (touch p key now entries).length ≤ entries.length := by
  unfold touch
  split
  · cases hfind : find? key entries with
    | none =>
      rw [Option.toList_none, List.map_nil, List.append_nil]
      exact List.filter_sublist.length_le
    | some e =>
      have hless : (without key entries).length < entries.length := by
        refine List.length_filter_lt_length_iff_exists.mpr ⟨e, mem_of_find? hfind, ?_⟩
        simp [key_of_find? hfind]
      rw [List.length_append, Option.toList_some, List.map_singleton, List.length_singleton]
      omega
  · exact Nat.le_of_eq (List.length_map _)

theorem within_get (h : Within p entries) (key : K) (now : Instant) :
    Within p (get p key now entries).2 := by
  unfold get
  split
  · exact h
  · split
    · exact h.sublist List.filter_sublist
    · exact h.of_length_le (length_touch_le p key now entries)

theorem within_apply (h : Within p entries) (action : Action K V) :
    Within p (apply p entries action).2 := by
  cases action with
  | get key now => exact within_get h key now
  | put key value now => exact within_cut p now _
  | putAll pairs => exact within_insertAll h pairs
  | remove key => exact h.sublist List.filter_sublist
  | clear => exact h.sublist (List.nil_sublist _)
  | trim now => exact h.sublist (List.dropWhile_sublist _)

theorem within_runAll (h : Within p entries) (actions : List (Action K V)) :
    Within p (runAll (apply p) entries actions).2 := by
  induction actions using List.reverseRecOn with
  | nil => exact h
  | append_singleton actions action ih =>
    rw [runAll_concat]
    exact within_apply ih action

end Entries

namespace Contents
variable {K V : Type} [DecidableEq K]

theorem within_load (p : Policy) (now : Instant) (snapshot : List (Entry K V)) :
    Entries.Within p (load p now snapshot).contents.entries := by
  have hcut : (load p now snapshot).contents.entries =
      Entries.cut p now (restored p snapshot).entries := entries_trimToSize p now _
  rw [hcut]
  exact Entries.within_cut p now _

end Contents

namespace Manager
variable {K V : Type} [DecidableEq K]

/-- No run ever leaves more entries than the policy allows. -/
theorem Run.within {p : Policy} {persistent : Bool} {m : Manager K V} {j : Journal K V}
    (hrun : Run (Manager.start p persistent) j m) : Entries.Within p m.contents.entries := by
  rcases hrun.loaded_once with hunloaded | ⟨snapshot, now, -, hfollows⟩
  · intro limit _
    rw [hunloaded.contents]
    exact Nat.zero_le limit
  · rw [hfollows.entries]
    exact Entries.within_runAll (Contents.within_load p now snapshot) j.actions

end Manager

end ExpiringCache
