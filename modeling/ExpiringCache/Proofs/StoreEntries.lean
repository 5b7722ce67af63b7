import ExpiringCache.Proofs.StoreSlots

/-!
What the operations of a store do to the list of its entries, if each entry names the key that it stands
under. Main statement: writing entries with different keys to an empty store gives these entries in this
order, whatever order the store keeps.
-/
namespace ExpiringCache
set_option autoImplicit false

/-! ## Lists of entries -/

namespace Entries
variable {K V : Type}

def keys (entries : List (Entry K V)) : List K := entries.map (·.key)

variable [DecidableEq K]

def without (key : K) (entries : List (Entry K V)) : List (Entry K V) :=
  entries.filter fun e => e.key ≠ key

def find? (key : K) (entries : List (Entry K V)) : Option (Entry K V) :=
  entries.find? fun e => e.key = key

theorem find?_eq_none {key : K} {entries : List (Entry K V)} :
    find? key entries = none ↔ key ∉ keys entries := by
  simp [find?, keys]

theorem key_of_find? {key : K} {entries : List (Entry K V)} {e : Entry K V}
    (h : find? key entries = some e) : e.key = key := by
  simpa using List.find?_some h

theorem mem_of_find? {key : K} {entries : List (Entry K V)} {e : Entry K V}
    (h : find? key entries = some e) : e ∈ entries :=
  List.mem_of_find?_eq_some h

theorem without_eq_self {key : K} {entries : List (Entry K V)} (h : key ∉ keys entries) :
    without key entries = entries := by
  rw [without, List.filter_eq_self]
  intro e he
  have hne : e.key ≠ key := fun hkey => h (hkey ▸ List.mem_map_of_mem he)
  simpa using hne

theorem not_mem_keys_without (key : K) (entries : List (Entry K V)) :
    key ∉ keys (without key entries) := by
  simp [keys, without]

theorem without_append (key : K) (as bs : List (Entry K V)) :
    without key (as ++ bs) = without key as ++ without key bs :=
  List.filter_append ..

theorem without_without (key : K) (entries : List (Entry K V)) :
    without key (without key entries) = without key entries :=
  without_eq_self (not_mem_keys_without key entries)

theorem without_singleton {key : K} {e : Entry K V} (h : e.key = key) : without key [e] = [] := by
  simp [without, h]

/-- Where no two entries share a key, the entry of a key is the one that is found. -/
theorem eq_of_find? {key : K} {entries : List (Entry K V)} {e x : Entry K V}
    (hnodup : (keys entries).Nodup) (h : find? key entries = some e) (hx : x ∈ entries)
    (hkey : x.key = key) : x = e :=
  List.inj_on_of_nodup_map hnodup hx (mem_of_find? h) (hkey.trans (key_of_find? h).symm)

end Entries

/-! ## Stores -/

namespace Store
variable {K V : Type}

/-- Every entry names the key that it stands under. -/
def Keyed (s : Store K V) : Prop := ∀ slot ∈ s.slots, slot.2.key = slot.1

theorem keyed_empty (order : Order) : (Store.empty order : Store K V).Keyed := by
  intro slot hslot
  simp [empty] at hslot

theorem keyed_drop {s : Store K V} (h : s.Keyed) (count : Nat) : (s.drop count).Keyed :=
  fun slot hslot => h slot (List.mem_of_mem_drop hslot)

theorem keyed_clear (s : Store K V) : s.clear.Keyed := by
  intro slot hslot
  simp [clear] at hslot

theorem entries_drop (s : Store K V) (count : Nat) : (s.drop count).entries = s.entries.drop count :=
  List.map_drop

theorem size_eq (s : Store K V) : s.size = s.entries.length := by
  simp [size, entries]

/-- The slots are known from the entries. -/
theorem slots_eq {s : Store K V} (h : s.Keyed) : s.slots = s.entries.map fun e => (e.key, e) := by
  rw [entries, List.map_map]
  refine (List.map_id s.slots).symm.trans (List.map_congr_left fun slot hslot => ?_)
  simp [h slot hslot]

theorem keys_entries {s : Store K V} (h : s.Keyed) : Entries.keys s.entries = s.keys := by
  rw [Entries.keys, entries, List.map_map]
  exact List.map_congr_left h

theorem nodup_keys_entries {s : Store K V} (h : s.Keyed) : (Entries.keys s.entries).Nodup := by
  rw [keys_entries h]
  exact s.nodup_keys

variable [DecidableEq K]

theorem find?_eq {s : Store K V} (h : s.Keyed) (key : K) :
    s.find? key = Entries.find? key s.entries := by
  rw [find?, Slots.find?, slots_eq h, List.find?_map, Option.map_map]
  exact Option.map_id'

theorem entries_erase {s : Store K V} (h : s.Keyed) (key : K) :
    (Slots.erase key s.slots).map (·.2) = Entries.without key s.entries := by
  rw [Slots.erase, slots_eq h, List.filter_map, List.map_map]
  exact List.map_id' _

/-! ### Taking out -/

theorem keyed_remove {s : Store K V} (h : s.Keyed) (key : K) : (s.remove key).2.Keyed :=
  fun slot hslot => h slot ((List.mem_filter.mp hslot).1)

theorem entries_remove {s : Store K V} (h : s.Keyed) (key : K) :
    (s.remove key).2.entries = Entries.without key s.entries :=
  entries_erase h key

/-! ### Writing -/

theorem keyed_put {s : Store K V} (h : s.Keyed) {key : K} {e : Entry K V} (hkey : e.key = key) :
    (s.put key e).Keyed := by
  have hback : ∀ slot ∈ s.slots ++ [(key, e)], slot.2.key = slot.1 := by
    intro slot hslot
    rcases List.mem_append.mp hslot with hslot | hslot
    · exact h slot hslot
    · simp_all
  intro slot hslot
  unfold put at hslot
  split at hslot
  · refine hback slot ?_
    rcases List.mem_append.mp hslot with hslot | hslot
    · exact List.mem_append_left _ ((List.mem_filter.mp hslot).1)
    · exact List.mem_append_right _ hslot
  · simp only [Slots.inPlace] at hslot
    split at hslot
    · obtain ⟨old, hold, rfl⟩ := List.mem_map.mp hslot
      split
      · exact hkey
      · exact h old hold
    · exact hback slot hslot

theorem entries_put_access {s : Store K V} (h : s.Keyed) (horder : s.order = .access) (key : K)
    (e : Entry K V) : (s.put key e).entries = Entries.without key s.entries ++ [e] := by
  simp only [put, horder, entries, Slots.toBack, List.map_append, List.map_cons, List.map_nil]
  rw [entries_erase h]
  rfl

theorem mem_keys_iff {s : Store K V} (h : s.Keyed) (key : K) :
    (s.slots.map (·.1)).contains key = true ↔ key ∈ Entries.keys s.entries := by
  rw [List.contains_iff_mem, slots_eq h, List.map_map]
  rfl

theorem entries_put_absent {s : Store K V} (h : s.Keyed) {key : K}
    (habsent : key ∉ Entries.keys s.entries) (e : Entry K V) :
    (s.put key e).entries = s.entries ++ [e] := by
  cases horder : s.order with
  | access => rw [entries_put_access h horder, Entries.without_eq_self habsent]
  | insertion =>
    have hc : ¬ (s.slots.map (·.1)).contains key = true := fun hc => habsent ((mem_keys_iff h key).mp hc)
    simp only [put, horder, entries, Slots.inPlace, if_neg hc, List.map_append, List.map_cons,
      List.map_nil]

theorem entries_put_present {s : Store K V} (h : s.Keyed) (horder : s.order = .insertion) {key : K}
    (hpresent : key ∈ Entries.keys s.entries) (e : Entry K V) :
    (s.put key e).entries = s.entries.map fun x => if x.key = key then e else x := by
  have hc : (s.slots.map (·.1)).contains key = true := (mem_keys_iff h key).mpr hpresent
  simp only [put, horder, entries, Slots.inPlace, if_pos hc, List.map_map]
  refine List.map_congr_left fun slot hslot => ?_
  simp only [Function.comp_apply, h slot hslot]
  split <;> rfl

/-- An entry that is written in place of an earlier one of its key goes to the back. -/
theorem entries_remove_put {s : Store K V} (h : s.Keyed) (key : K) (e : Entry K V) :
    ((s.remove key).2.put key e).entries = Entries.without key s.entries ++ [e] := by
  rw [entries_put_absent (keyed_remove h key) (by
    rw [entries_remove h]
    exact Entries.not_mem_keys_without key _), entries_remove h]

/-! ### Writing many -/

theorem keyed_putAll {s : Store K V} (h : s.Keyed) (entries : List (Entry K V)) :
    (s.putAll entries).Keyed := by
  induction entries generalizing s with
  | nil => exact h
  | cons e rest ih => exact ih (keyed_put h rfl)

theorem order_putAll (s : Store K V) (entries : List (Entry K V)) :
    (s.putAll entries).order = s.order := by
  induction entries generalizing s with
  | nil => rfl
  | cons e rest ih => exact (ih (s.put e.key e)).trans (order_put s e.key e)

theorem entries_putAll {s : Store K V} (h : s.Keyed) {entries : List (Entry K V)}
    (hnodup : (Entries.keys (s.entries ++ entries)).Nodup) :
    (s.putAll entries).entries = s.entries ++ entries := by
  induction entries generalizing s with
  | nil => exact (List.append_nil _).symm
  | cons e rest ih =>
    have habsent : e.key ∉ Entries.keys s.entries := by
      intro hmem
      rw [Entries.keys, List.map_append, List.nodup_append] at hnodup
      exact hnodup.2.2 e.key hmem e.key (by simp) rfl
    have hput : (s.put e.key e).entries = s.entries ++ [e] := entries_put_absent h habsent e
    have hrest := ih (keyed_put h rfl) (by rw [hput, List.append_assoc]; exact hnodup)
    rw [hput, List.append_assoc] at hrest
    exact hrest

end Store

end ExpiringCache
