import ExpiringCache.Store.Basic
import Mathlib.Data.List.Dedup

/-!
What the operations of a store do to its keys and to its slots, whatever keys the entries name themselves.
-/
namespace ExpiringCache
set_option autoImplicit false

/-- What comes last is kept there, and nowhere before. -/
theorem dedup_concat {α : Type} [DecidableEq α] (l : List α) (a : α) :
    (l ++ [a]).dedup = l.dedup.filter (· ≠ a) ++ [a] := by
  induction l with
  | nil => simp
  | cons b l ih =>
    by_cases hb : b ∈ l
    · rw [List.cons_append, List.dedup_cons_of_mem (List.mem_append_left _ hb), ih,
        List.dedup_cons_of_mem hb]
    · by_cases hba : b = a
      · subst hba
        rw [List.cons_append, List.dedup_cons_of_mem (by simp), ih, List.dedup_cons_of_notMem hb]
        simp
      · rw [List.cons_append, List.dedup_cons_of_notMem (by simp [hb, hba]), ih,
          List.dedup_cons_of_notMem hb]
        simp [hba]

/-- A place in a list with one more element is the last one, or it was there before. -/
theorem split_concat {α : Type} {l before after : List α} {a b : α} (h : l ++ [a] = before ++ b :: after) :
    (after = [] ∧ before = l ∧ b = a) ∨ ∃ rest, after = rest ++ [a] ∧ l = before ++ b :: rest := by
  rcases List.eq_nil_or_concat' after with rfl | ⟨rest, last, rfl⟩
  · obtain ⟨hbefore, hlast⟩ := List.append_inj' h rfl
    exact .inl ⟨rfl, hbefore.symm, (List.singleton_inj.mp hlast).symm⟩
  · rw [← List.cons_append, ← List.append_assoc] at h
    obtain ⟨hl, hlast⟩ := List.append_inj' h rfl
    exact .inr ⟨rest, by rw [hlast], hl⟩

namespace Store
variable {K V : Type} {s : Store K V} {key other : K} {e : Entry K V} {slot : Slot K V}

theorem nodup_keys (s : Store K V) : s.keys.Nodup := s.nodup

theorem size_eq_length_keys (s : Store K V) : s.size = s.keys.length := (List.length_map _).symm

/-- No two slots share a key. -/
theorem eq_of_key {first second : Slot K V} (hfirst : first ∈ s.slots) (hsecond : second ∈ s.slots)
    (hkey : first.1 = second.1) : first = second :=
  List.inj_on_of_nodup_map s.nodup hfirst hsecond hkey

theorem mem_keys_iff_exists : key ∈ s.keys ↔ ∃ e, (key, e) ∈ s.slots := by
  simp [keys]

theorem mem_slots_drop {count : Nat} :
    slot ∈ (s.drop count).slots ↔ slot ∈ s.slots ∧ slot.1 ∉ (s.slots.take count).map (·.1) := by
  have hnodup : ((s.slots.take count ++ s.slots.drop count).map (·.1)).Nodup := by
    rw [List.take_append_drop]
    exact s.nodup
  rw [List.map_append, List.nodup_append] at hnodup
  constructor
  · intro hslot
    have hkey : slot.1 ∈ (s.slots.drop count).map (·.1) := List.mem_map_of_mem hslot
    exact ⟨List.mem_of_mem_drop hslot, fun hfirst => hnodup.2.2 _ hfirst _ hkey rfl⟩
  · rintro ⟨hslot, hlater⟩
    rw [← List.take_append_drop count s.slots, List.mem_append] at hslot
    rcases hslot with hfirst | hrest
    · exact absurd (List.mem_map_of_mem hfirst) hlater
    · exact hrest

theorem drop_min (count : Nat) (s : Store K V) : s.drop (min count s.size) = s.drop count := by
  have hslots : s.slots.drop (min count s.size) = s.slots.drop count := by
    rcases Nat.le_total count s.size with hle | hle
    · rw [Nat.min_eq_left hle]
    · rw [Nat.min_eq_right hle, size, List.drop_length, List.drop_eq_nil_of_le hle]
  simp only [drop, hslots]

theorem keys_drop (s : Store K V) (count : Nat) : (s.drop count).keys = s.keys.drop count := List.map_drop

variable [DecidableEq K]

theorem find?_eq_some_iff : s.find? key = some e ↔ (key, e) ∈ s.slots := by
  rw [find?, Slots.find?, Option.map_eq_some_iff]
  constructor
  · rintro ⟨slot, hfind, rfl⟩
    have hkey : slot.1 = key := by simpa using List.find?_some hfind
    rw [← hkey]
    exact List.mem_of_find?_eq_some hfind
  · intro hslot
    cases hfind : s.slots.find? fun s => s.1 = key with
    | none => simpa using List.find?_eq_none.mp hfind _ hslot
    | some found =>
      have hkey : found.1 = key := by simpa using List.find?_some hfind
      refine ⟨found, rfl, ?_⟩
      rw [eq_of_key (List.mem_of_find?_eq_some hfind) hslot hkey]

theorem isSome_find? (s : Store K V) (key : K) : (s.find? key).isSome = decide (key ∈ s.keys) := by
  rw [Bool.eq_iff_iff, decide_eq_true_iff]
  simp [find?, Slots.find?, keys]

/-- The entries stand in the order of the keys. -/
theorem entries_eq_filterMap (s : Store K V) : s.entries = s.keys.filterMap s.find? := by
  have hfind : ∀ slot ∈ s.slots, s.find? slot.1 = some slot.2 := fun _ hslot => find?_eq_some_iff.mpr hslot
  rw [entries, keys, List.filterMap_map, ← List.filterMap_eq_map]
  exact List.filterMap_congr fun slot hslot => (hfind slot hslot).symm

theorem find?_eq_none_iff : s.find? key = none ↔ key ∉ s.keys := by
  rw [← Option.not_isSome_iff_eq_none, isSome_find?, decide_eq_true_iff]

/-! ## Taking out -/

theorem mem_slots_remove : slot ∈ (s.remove key).2.slots ↔ slot ∈ s.slots ∧ slot.1 ≠ key := by
  change slot ∈ Slots.erase key s.slots ↔ _
  rw [Slots.erase, List.mem_filter, decide_eq_true_iff]

theorem keys_remove (s : Store K V) (key : K) : (s.remove key).2.keys = s.keys.filter (· ≠ key) := by
  change (Slots.erase key s.slots).map (·.1) = (s.slots.map (·.1)).filter (· ≠ key)
  rw [Slots.erase, List.filter_map]
  rfl

theorem find?_remove (s : Store K V) (key : K) : (s.remove key).2.find? key = none := by
  rw [find?_eq_none_iff]
  exact Slots.not_mem_erase key s.slots

/-! ## Writing -/

/-- In order of access, what is written comes to the back. -/
theorem slots_put_access (horder : s.order = .access) (key : K) (e : Entry K V) :
    (s.put key e).slots = (s.remove key).2.slots ++ [(key, e)] := by
  simp only [put, horder]
  rfl

/-- In order of insertion, what is written under a key that is held takes the place of what was there. -/
theorem slots_put_held (horder : s.order = .insertion) (hheld : key ∈ s.keys) (e : Entry K V) :
    (s.put key e).slots = s.slots.map fun slot => if slot.1 = key then (key, e) else slot := by
  simp only [put, horder, Slots.inPlace]
  exact if_pos (List.contains_iff_mem.mpr hheld)

theorem slots_put_absent (horder : s.order = .insertion) (habsent : key ∉ s.keys) (e : Entry K V) :
    (s.put key e).slots = s.slots ++ [(key, e)] := by
  simp only [put, horder, Slots.inPlace]
  exact if_neg fun h => habsent (List.contains_iff_mem.mp h)

theorem keys_put_access (horder : s.order = .access) (key : K) (e : Entry K V) :
    (s.put key e).keys = s.keys.filter (· ≠ key) ++ [key] := by
  rw [← keys_remove, keys, slots_put_access horder, List.map_append]
  rfl

theorem keys_put_insertion (horder : s.order = .insertion) (key : K) (e : Entry K V) :
    (s.put key e).keys = if key ∈ s.keys then s.keys else s.keys ++ [key] := by
  split
  · rename_i hheld
    rw [keys, slots_put_held horder hheld, Slots.keys_overwrite]
    rfl
  · rename_i habsent
    rw [keys, slots_put_absent horder habsent, List.map_append]
    rfl

/-- Whatever order the store keeps, what is written is what the key has then, and no other key is touched. -/
theorem mem_slots_put : slot ∈ (s.put key e).slots ↔ slot = (key, e) ∨ slot ∈ s.slots ∧ slot.1 ≠ key := by
  cases horder : s.order with
  | access => rw [slots_put_access horder, List.mem_append, mem_slots_remove, List.mem_singleton, or_comm]
  | insertion =>
    by_cases hheld : key ∈ s.keys
    · rw [slots_put_held horder hheld, List.mem_map]
      constructor
      · rintro ⟨old, hold, rfl⟩
        split
        · exact .inl rfl
        · rename_i hkey
          exact .inr ⟨hold, hkey⟩
      · rintro (rfl | ⟨hslot, hkey⟩)
        · obtain ⟨old, hold⟩ := mem_keys_iff_exists.mp hheld
          exact ⟨(key, old), hold, if_pos rfl⟩
        · exact ⟨slot, hslot, if_neg hkey⟩
    · rw [slots_put_absent horder hheld, List.mem_append, List.mem_singleton, or_comm]
      have hother : slot ∈ s.slots → slot.1 ≠ key := fun hslot hkey =>
        hheld (hkey ▸ List.mem_map_of_mem hslot)
      tauto

theorem find?_put (s : Store K V) (key : K) (e : Entry K V) (other : K) :
    (s.put key e).find? other = if key = other then some e else s.find? other := by
  ext x
  rw [find?_eq_some_iff, mem_slots_put]
  split
  · rename_i hsame
    simp [hsame, eq_comm]
  · rename_i hother
    rw [find?_eq_some_iff]
    simp [Ne.symm hother]

/-- Whatever order the store keeps, writing brings in the key and no other. -/
theorem mem_keys_put : other ∈ (s.put key e).keys ↔ other = key ∨ other ∈ s.keys := by
  rw [mem_keys_iff_exists, mem_keys_iff_exists]
  simp only [mem_slots_put, Prod.mk.injEq]
  by_cases hother : other = key <;> simp [hother]

theorem keys_put_perm (s : Store K V) (key : K) (e : Entry K V) :
    (s.put key e).keys.Perm (s.keys.insert key) := by
  rw [List.perm_ext_iff_of_nodup (nodup_keys _) (s.nodup_keys.insert)]
  intro other
  rw [mem_keys_put, List.mem_insert_iff]

/-! ## Looking up -/

theorem get_of_absent (h : s.find? key = none) : s.get key = (none, s) := by
  unfold get
  rw [h]
  cases s.order <;> rfl

theorem get_insertion (horder : s.order = .insertion) (key : K) : s.get key = (s.find? key, s) := by
  unfold get
  rw [horder]

/-- In order of access, finding an entry is as good as writing it once more. -/
theorem get_access (horder : s.order = .access) (h : s.find? key = some e) :
    s.get key = (some e, s.put key e) := by
  unfold get put
  simp only [horder, h]

theorem fst_get (s : Store K V) (key : K) : (s.get key).1 = s.find? key := by
  cases hfind : s.find? key with
  | none => rw [get_of_absent hfind]
  | some e =>
    cases horder : s.order with
    | insertion => rw [get_insertion horder, hfind]
    | access => rw [get_access horder hfind]

@[simp] theorem order_get (s : Store K V) (key : K) : (s.get key).2.order = s.order := by
  unfold get
  split <;> rfl

/-- Looking a key up may move it, but changes nothing about what is held. -/
theorem mem_slots_get : slot ∈ (s.get key).2.slots ↔ slot ∈ s.slots := by
  cases hfind : s.find? key with
  | none => rw [get_of_absent hfind]
  | some e =>
    cases horder : s.order with
    | insertion => rw [get_insertion horder]
    | access =>
      rw [get_access horder hfind, mem_slots_put]
      have hheld : (key, e) ∈ s.slots := find?_eq_some_iff.mp hfind
      constructor
      · rintro (rfl | ⟨hslot, -⟩)
        · exact hheld
        · exact hslot
      · intro hslot
        by_cases hkey : slot.1 = key
        · exact .inl (eq_of_key hslot hheld hkey)
        · exact .inr ⟨hslot, hkey⟩

theorem find?_get (key : K) (s : Store K V) : (s.get key).2.find? key = s.find? key := by
  ext e
  rw [find?_eq_some_iff, find?_eq_some_iff, mem_slots_get]

end Store

end ExpiringCache
