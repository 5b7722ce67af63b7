import ExpiringCache.Proofs.History
import ExpiringCache.Proofs.LoadOrder

/-!
The load of a snapshot in which keys occur more than once. Of each key the last entry is kept, in the order of
the policy. Where use decides the order it also keeps its place, and the cache is in order; where writing does,
it takes the place of the first one, and then an older entry may stand behind it.
-/
namespace ExpiringCache
set_option autoImplicit false

/-! ## First and last -/

namespace Entries
variable {K V : Type} [DecidableEq K]

/-- The keys, in the order in which each occurs for the first time. -/
def firstKeys (entries : List (Entry K V)) : List K := (keys entries).reverse.dedup.reverse

/-- The keys, in the order in which each occurs for the last time. -/
def lastKeys (entries : List (Entry K V)) : List K := (keys entries).dedup

def findLast? (key : K) (entries : List (Entry K V)) : Option (Entry K V) := find? key entries.reverse

omit [DecidableEq K] in
theorem keys_concat (entries : List (Entry K V)) (e : Entry K V) :
    keys (entries ++ [e]) = keys entries ++ [e.key] := List.map_append

theorem firstKeys_concat (entries : List (Entry K V)) (e : Entry K V) :
    firstKeys (entries ++ [e]) =
      if e.key ∈ keys entries then firstKeys entries else firstKeys entries ++ [e.key] := by
  rw [firstKeys, keys_concat, List.reverse_append, List.reverse_singleton, List.singleton_append]
  split
  · rename_i hmem
    rw [List.dedup_cons_of_mem (List.mem_reverse.mpr hmem)]
    rfl
  · rename_i hmem
    rw [List.dedup_cons_of_notMem (fun h => hmem (List.mem_reverse.mp h)), List.reverse_cons]
    rfl

theorem lastKeys_concat (entries : List (Entry K V)) (e : Entry K V) :
    lastKeys (entries ++ [e]) = (lastKeys entries).filter (· ≠ e.key) ++ [e.key] := by
  rw [lastKeys, keys_concat, dedup_concat]
  rfl

theorem find?_cons (other : K) (e : Entry K V) (entries : List (Entry K V)) :
    find? other (e :: entries) = if e.key = other then some e else find? other entries := by
  rw [find?, List.find?_cons]
  split <;> simp_all [find?]

theorem findLast?_concat (other : K) (entries : List (Entry K V)) (e : Entry K V) :
    findLast? other (entries ++ [e]) = if e.key = other then some e else findLast? other entries := by
  rw [findLast?, List.reverse_append, List.reverse_singleton, List.singleton_append, find?_cons]
  rfl

/-- Entries with different keys are known from their keys and what is found under each. -/
theorem eq_filterMap_keys {entries : List (Entry K V)} (h : (keys entries).Nodup) :
    entries = (keys entries).filterMap fun key => find? key entries := by
  induction entries with
  | nil => rfl
  | cons e rest ih =>
    obtain ⟨hfirst, hrest⟩ : e.key ∉ keys rest ∧ (keys rest).Nodup := List.nodup_cons.mp h
    have hlater : (keys rest).filterMap (fun key => find? key (e :: rest)) =
        (keys rest).filterMap fun key => find? key rest := by
      refine List.filterMap_congr fun key hkey => ?_
      have hne : e.key ≠ key := fun heq => hfirst (heq ▸ hkey)
      rw [find?_cons, if_neg hne]
    have hself : find? e.key (e :: rest) = some e := by rw [find?_cons, if_pos rfl]
    have hcons : (keys (e :: rest)).filterMap (fun key => find? key (e :: rest)) =
        e :: (keys rest).filterMap fun key => find? key (e :: rest) := List.filterMap_cons_some hself
    rw [hcons, hlater, ← ih hrest]

end Entries

namespace Store
variable {K V : Type} [DecidableEq K] {s : Store K V}

open Entries (firstKeys lastKeys findLast?)

theorem putAll_concat (s : Store K V) (entries : List (Entry K V)) (e : Entry K V) :
    s.putAll (entries ++ [e]) = (s.putAll entries).put e.key e := by
  rw [putAll, putSlots, List.map_append, List.foldl_append]
  rfl

/-! ### Writing many, some of them twice -/

variable (order : Order) (entries : List (Entry K V))

theorem keyed_putAll_empty : ((Store.empty order).putAll entries).Keyed :=
  keyed_putAll (keyed_empty order) entries

theorem find?_putAll_empty (key : K) :
    Entries.find? key ((Store.empty order).putAll entries).entries = findLast? key entries := by
  rw [← find?_eq (keyed_putAll_empty order entries)]
  induction entries using List.reverseRecOn with
  | nil => rfl
  | append_singleton entries e ih => rw [putAll_concat, find?_put, ih, Entries.findLast?_concat]

theorem keys_putAll_access :
    Entries.keys ((Store.empty .access).putAll entries).entries = lastKeys entries := by
  rw [keys_entries (keyed_putAll_empty _ entries)]
  induction entries using List.reverseRecOn with
  | nil => rfl
  | append_singleton entries e ih =>
    rw [putAll_concat, keys_put_access (order_putAll _ _), ih, Entries.lastKeys_concat]

theorem keys_putAll_insertion :
    Entries.keys ((Store.empty .insertion).putAll entries).entries = firstKeys entries := by
  rw [keys_entries (keyed_putAll_empty _ entries)]
  induction entries using List.reverseRecOn with
  | nil => rfl
  | append_singleton entries e ih =>
    have hheld : e.key ∈ firstKeys entries ↔ e.key ∈ Entries.keys entries := by simp [firstKeys]
    rw [putAll_concat, keys_put_insertion (order_putAll _ _), ih, Entries.firstKeys_concat]
    simp only [hheld]

theorem sublist_putAll_access : ((Store.empty .access).putAll entries).entries.Sublist entries := by
  induction entries using List.reverseRecOn with
  | nil => exact List.Sublist.refl _
  | append_singleton entries e ih =>
    rw [putAll_concat, entries_put_access (keyed_putAll_empty _ entries) (order_putAll _ _)]
    exact (List.filter_sublist.trans ih).append (List.Sublist.refl _)

end Store

namespace Manager
variable {K V : Type} [DecidableEq K] {p : Policy} {persistent : Bool} {m m' : Manager K V}
  {j : Journal K V} {snapshot sorted : List (Entry K V)} {now : Instant}

/-- What a cache without a limit on its size holds right after a load, where `sorted` is the snapshot in
order: the last entry of each key, once. Where use decides the order these entries stand as they do in the
snapshot; otherwise each stands where its key came first. -/
structure KeepsLast (p : Policy) (sorted : List (Entry K V)) (m : Manager K V) : Prop where
  keys_nodup : m.contents.store.keys.Nodup
  keyed : m.contents.store.Keyed
  last : ∀ key, m.contents.store.find? key = Entries.findLast? key sorted
  entries : m.contents.entries =
    (if p.timeToIdle.isSome then Entries.lastKeys sorted else Entries.firstKeys sorted).filterMap
      fun key => Entries.findLast? key sorted
  inOrder : p.timeToIdle.isSome = true ∨ (Entries.keys sorted).Nodup →
    p.InOrder m.contents.entries ∧
      ∀ later, (m.perform (.trim later)).contents.entries = p.unexpired later m.contents.entries

theorem run_keepsLast (hrun : Run (Manager.start p persistent) j m)
    (hload : m.step? (.load snapshot now) = some m') (hunlimited : p.maxSize = none)
    (hsorted : Entries.StablySorted p snapshot sorted) : KeepsLast p sorted m' := by
  obtain ⟨hpolicy, hcontents, -⟩ := hrun.load_eq hload
  have hheld : m'.contents = { store := (Store.empty p.order).putAll sorted } := by
    have hwhole := Contents.trimToSize_of_within (p := p) (c := Contents.restored p snapshot)
      (fun limit hlimit => by simp [hunlimited] at hlimit) now
    rw [hcontents, hsorted.eq_sorted]
    exact congrArg Prod.snd hwhole
  have hentries : m'.contents.entries = ((Store.empty p.order).putAll sorted).entries := by
    rw [hheld]
    rfl
  have hkeyed := Store.keyed_putAll_empty p.order sorted
  have hlast := Store.find?_putAll_empty p.order sorted
  refine ⟨m'.contents.store.nodup, ?_, fun key => ?_, ?_, fun hcase => ?_⟩
  · rw [hheld]
    exact hkeyed
  · rw [hheld, Store.find?_eq hkeyed, hlast]
  · rw [hentries, Entries.eq_filterMap_keys (Store.nodup_keys_entries hkeyed)]
    simp only [hlast]
    cases hidle : p.timeToIdle.isSome with
    | true => rw [Contents.order_eq_access hidle, Store.keys_putAll_access, if_pos rfl]
    | false =>
      rw [Contents.order_eq_insertion hidle, Store.keys_putAll_insertion, if_neg (by simp)]
  · have hinOrder : p.InOrder m'.contents.entries := by
      rw [hentries]
      rcases hcase with hidle | hkeys
      · rw [Contents.order_eq_access hidle]
        exact hsorted.inOrder.sublist (Store.sublist_putAll_access sorted)
      · rw [Store.entries_putAll (Store.keyed_empty p.order) hkeys]
        exact hsorted.inOrder
    refine ⟨hinOrder, fun later => ?_⟩
    rw [perform, hpolicy]
    exact (Contents.entries_purge p later m'.contents).trans (Policy.dropWhile_isExpired hinOrder later)

/-- Entries live for five milliseconds after they were written. -/
def briefPolicy : Policy where
  lifetime := some (.timeToLive (.ofMillis 5))
  maxSize_pos := Policy.unlimited.maxSize_pos
  shortest_le := by
    intro l hl
    cases hl
    decide

/-- A snapshot that has one key twice. -/
def repeatedKey : List (Entry String String) :=
  [⟨"k", "old", 0, 0⟩, ⟨"a", "x", 1, 1⟩, ⟨"k", "new", 9, 9⟩]

theorem stablySorted_repeatedKey : Entries.StablySorted briefPolicy repeatedKey repeatedKey where
  inOrder := by
    rw [Policy.InOrder]
    decide
  stable _ := rfl

theorem run_keepsLast_of_repeated :
    ∃ (m' : Manager String String),
      Run (Manager.start briefPolicy true) [] (Manager.start briefPolicy true : Manager String String) ∧
        (Manager.start briefPolicy true).step? (.load repeatedKey 10) = some m' ∧
        briefPolicy.maxSize = none ∧ Entries.StablySorted briefPolicy repeatedKey repeatedKey ∧
        KeepsLast briefPolicy repeatedKey m' := by
  obtain ⟨m', hload⟩ : ∃ m', (Manager.start briefPolicy true : Manager String String).step?
      (.load repeatedKey 10) = some m' := ⟨_, rfl⟩
  exact ⟨m', Run.nil, hload, rfl, stablySorted_repeatedKey,
    run_keepsLast Run.nil hload rfl stablySorted_repeatedKey⟩

/-- Where writing decides the order, the load of a key that occurs twice may put its last entry in front of an
older one. That one is then neither seen to have expired nor given up. -/
theorem repeatedKey_out_of_order :
    ∃ m' : Manager String String,
      (Manager.start briefPolicy true).step? (.load repeatedKey 10) = some m' ∧
        m'.contents.entries = [⟨"k", "new", 9, 9⟩, ⟨"a", "x", 1, 1⟩] ∧
        ¬ briefPolicy.InOrder m'.contents.entries ∧
        (m'.perform (.trim 10)).contents.entries ≠ briefPolicy.unexpired 10 m'.contents.entries := by
  have hentries : (Contents.load briefPolicy 10 repeatedKey).contents.entries =
      [⟨"k", "new", 9, 9⟩, ⟨"a", "x", 1, 1⟩] := by
    rw [Contents.load_of_sorted 10 stablySorted_repeatedKey.eq_sorted.symm]
    rfl
  refine ⟨_, rfl, hentries, ?_, ?_⟩
  · change ¬ briefPolicy.InOrder (Contents.load briefPolicy 10 repeatedKey).contents.entries
    rw [hentries, Policy.InOrder]
    decide
  · change ((Contents.load briefPolicy 10 repeatedKey).contents.purge briefPolicy 10).2.entries ≠
      briefPolicy.unexpired 10 (Contents.load briefPolicy 10 repeatedKey).contents.entries
    rw [Contents.entries_purge, hentries]
    decide

end Manager

end ExpiringCache
