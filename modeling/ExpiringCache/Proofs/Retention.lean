import ExpiringCache.Proofs.History
import Mathlib.Data.List.Dedup
import Mathlib.Data.List.DropRight
import Mathlib.Data.List.Perm.Subperm
import Mathlib.Data.List.TakeWhile

/-!
How long a written key is sure to be found. As long as fewer other keys have been touched since its own
latest touch than the cache has room for, and its limit on life is not exceeded, nothing that happens to
other keys makes it go: whatever stands behind it has been touched since, so its turn to make room does not
come, and what has expired before it goes without it.
-/
namespace ExpiringCache
set_option autoImplicit false

/-! ## Limits on life -/

/-- The span reaches from `t`, which is not before the epoch, to `now`. -/
structure Duration.Reaches (d : Duration) (t now : Instant) : Prop where
  epoch : 0 ≤ t.toInt
  within : now.toInt - t.toInt ≤ d.wholeMillis

theorem Duration.Reaches.le_after {d : Duration} {t now : Instant} (h : d.Reaches t now) :
    now ≤ t.after d.toSpan := by
  have hhigh := now.toInt_lt
  have hepoch := h.epoch
  have hwithin := h.within
  rw [Int64.le_iff_toInt_le, Instant.toInt_after, Duration.toInt_toSpan]
  omega

/-! ## What was touched -/

/-- The key is written again or taken out, alone or with all others. -/
def Event.Withdraws {K V : Type} (key : K) : Event K V → Prop
  | .stored e => e.key = key
  | .removed other => other = key
  | .cleared => True
  | .found _ _ | .missed _ => False

namespace History
variable {K V : Type} {p : Policy} {key : K} {history : History K V}

/-- The value was written for the key at `written`; `since` is what happened after that, and the key was
neither written again nor taken out in it. -/
def Stands (history : History K V) (key : K) (value : V) (written : Instant) (since : History K V) :
    Prop :=
  (∃ before, history = before ++ .stored (Entry.fresh key value written) :: since) ∧
    ∀ event ∈ since, ¬ event.Withdraws key

theorem Stands.touches_eq {value : V} {written : Instant} {since : History K V}
    (h : Stands history key value written since) (p : Policy) (loaded : History K V) :
    ∃ before, touches p (loaded ++ history) = before ++ key :: since.touches p := by
  obtain ⟨⟨before, rfl⟩, -⟩ := h
  refine ⟨touches p (loaded ++ before), ?_⟩
  rw [← List.append_assoc, touches_append]
  simp [touches, Event.touched?, Entry.fresh]

theorem stands_concat {value : V} {written : Instant} {since : History K V} {event : Event K V}
    (h : Stands (history ++ [event]) key value written since) :
    (since = [] ∧ event = .stored (Entry.fresh key value written)) ∨
      ∃ earlier, since = earlier ++ [event] ∧ ¬ event.Withdraws key ∧
        Stands history key value written earlier := by
  obtain ⟨⟨before, hsplit⟩, halone⟩ := h
  rcases split_concat hsplit with ⟨rfl, -, hevent⟩ | ⟨earlier, rfl, hhistory⟩
  · exact .inl ⟨rfl, hevent.symm⟩
  · refine .inr ⟨earlier, rfl, halone event (by simp), ⟨before, hhistory⟩, fun x hx => ?_⟩
    exact halone x (List.mem_append_left _ hx)

variable [DecidableEq K]

/-- The keys that were touched after the latest touch of `key`. -/
def touchedSince (p : Policy) (key : K) (history : History K V) : List K :=
  (history.touches p).rtakeWhile fun other => other ≠ key

/-- A key that was written at `written` is safe at `now`: fewer other keys were touched since its latest
touch than there is room for, and its limit on life is not exceeded. -/
structure Guards (p : Policy) (key : K) (written : Instant) (since : History K V) (now : Instant) :
    Prop where
  room : ∀ limit, p.maxSize = some limit → (since.touchedSince p key).dedup.length < limit
  live : ∀ d, p.timeToLive = some d → d.Reaches written now
  used : ∀ d, p.timeToIdle = some d →
    d.Reaches ((since.filterMap (Event.found? key)).getLastD written) now

theorem length_dedup_le_concat (keys : List K) (key : K) :
    keys.dedup.length ≤ (keys ++ [key]).dedup.length := by
  refine (List.Nodup.subperm (List.nodup_dedup keys) fun k hk => ?_).length_le
  rw [List.mem_dedup] at hk ⊢
  exact List.mem_append_left _ hk

/-- A key that occurs in a list occurs just before what follows it last. -/
theorem exists_append_rtakeWhile {keys : List K} (h : key ∈ keys) :
    ∃ older, keys = older ++ key :: keys.rtakeWhile fun other => other ≠ key := by
  induction keys using List.reverseRecOn with
  | nil => cases h
  | append_singleton keys last ih =>
    by_cases hlast : last = key
    · rw [List.rtakeWhile_concat_neg _ _ _ (by simpa using hlast), hlast]
      exact ⟨keys, rfl⟩
    · obtain ⟨older, holder⟩ := ih (by simpa [Ne.symm hlast] using h)
      rw [List.rtakeWhile_concat_pos _ _ _ (by simpa using hlast)]
      exact ⟨older, by rw [← List.cons_append, ← List.append_assoc, ← holder]⟩

/-- A key that is safe has been so since its latest touch. -/
theorem Guards.earlier {written now : Instant} {event : Event K V}
    (h : Guards p key written (history ++ [event]) now) (htouched : event.touched? p ≠ some key)
    (hfound : event.found? key = none) : Guards p key written history now := by
  refine ⟨fun limit hlimit => Nat.lt_of_le_of_lt ?_ (h.room limit hlimit), h.live, fun d hd => ?_⟩
  · unfold touchedSince
    rw [touches_append]
    cases hother : event.touched? p with
    | none => simp [touches, hother]
    | some other =>
      have hne : other ≠ key := fun heq => htouched (heq ▸ hother)
      have htouches : touches p [event] = [other] := by simp [touches, hother]
      rw [htouches, List.rtakeWhile_concat_pos _ _ _ (by simpa using hne)]
      exact length_dedup_le_concat _ other
  · have hused := h.used d hd
    rw [List.filterMap_append, List.filterMap_cons, hfound] at hused
    simpa using hused

theorem rtakeWhile_append_cons (before since : List K) (key : K) :
    (before ++ key :: since).rtakeWhile (fun other => other ≠ key) =
      since.rtakeWhile fun other => other ≠ key := by
  induction since using List.reverseRecOn with
  | nil => simp
  | append_singleton since other ih =>
    rw [← List.cons_append, ← List.append_assoc]
    by_cases hother : other = key
    · rw [List.rtakeWhile_concat_neg _ _ _ (by simpa using hother),
        List.rtakeWhile_concat_neg _ _ _ (by simpa using hother)]
    · rw [List.rtakeWhile_concat_pos _ _ _ (by simpa using hother),
        List.rtakeWhile_concat_pos _ _ _ (by simpa using hother), ih]

theorem Stands.touchedSince_eq {value : V} {written : Instant} {since : History K V}
    (h : Stands history key value written since) (p : Policy) (loaded : History K V) :
    touchedSince p key (loaded ++ history) = touchedSince p key since := by
  obtain ⟨before, htouches⟩ := h.touches_eq p loaded
  rw [touchedSince, htouches]
  exact rtakeWhile_append_cons before (since.touches p) key

end History

/-! ## Lists of entries -/

/-- The last element of a kind, and what follows it, are found in one way only. -/
theorem append_cons_inj_of_last {α : Type} {P : α → Prop} {as bs as' bs' : List α} {a a' : α}
    (h : as ++ a :: bs = as' ++ a' :: bs') (ha : P a) (ha' : P a') (hlast : ∀ b ∈ bs, ¬ P b)
    (hlast' : ∀ b ∈ bs', ¬ P b) : a = a' ∧ bs = bs' := by
  rcases List.append_eq_append_iff.mp h with ⟨mid, -, hmid⟩ | ⟨mid, -, hmid⟩
  · cases mid with
    | nil => exact List.cons_eq_cons.mp hmid
    | cons x mid =>
      obtain ⟨-, rfl⟩ := List.cons_eq_cons.mp hmid
      exact absurd ha' (hlast a' (by simp))
  · cases mid with
    | nil => exact List.cons_eq_cons.mp hmid.symm
    | cons x mid =>
      obtain ⟨-, rfl⟩ := List.cons_eq_cons.mp hmid
      exact absurd ha (hlast' a (by simp))

/-- In a list without repeats what follows an element in a part of the list follows it in the list. -/
theorem sublist_of_append_cons {α : Type} {as bs xs ys : List α} {a : α}
    (h : (as ++ a :: bs).Sublist (xs ++ a :: ys)) (hnodup : (xs ++ a :: ys).Nodup) : bs.Sublist ys := by
  have hbs : (a :: bs).Sublist (xs ++ a :: ys) := (List.sublist_append_right as _).trans h
  obtain ⟨front, rest, heq, hfront, hrest⟩ := List.sublist_append_iff.mp hbs
  cases front with
  | nil =>
    rw [List.nil_append] at heq
    exact List.cons_sublist_cons.mp (heq ▸ hrest)
  | cons x front =>
    obtain ⟨rfl, -⟩ := List.cons_eq_cons.mp heq
    have hmem : a ∈ xs := hfront.subset (by simp)
    exact absurd rfl ((List.nodup_append.mp hnodup).2.2 a hmem a (by simp))

namespace Entries
variable {K V : Type} {p : Policy} {now : Instant} {entries front behind : List (Entry K V)}
  {e : Entry K V}

theorem mem_dropWhile_isExpired (h : e ∈ entries) (hlive : p.isExpired e now = false) :
    e ∈ entries.dropWhile fun x => p.isExpired x now := by
  rw [← List.takeWhile_append_dropWhile (p := fun x => p.isExpired x now) (l := entries)] at h
  rcases List.mem_append.mp h with h | h
  · have hdead := List.mem_takeWhile_imp h
    simp [hlive] at hdead
  · exact h

/-- A live entry stays if there is room for it and for all that stand behind it. -/
theorem mem_cut (hlive : p.isExpired e now = false)
    (hroom : ∀ limit, p.maxSize = some limit → behind.length < limit) :
    e ∈ cut p now (front ++ e :: behind) := by
  unfold cut
  split
  · simp
  · rename_i limit hlimit
    split
    · simp
    · -- the live entry ends what is given up for having expired
      have hrest : (front ++ e :: behind).dropWhile (fun x => p.isExpired x now) =
          front.dropWhile (fun x => p.isExpired x now) ++ e :: behind := by
        rw [List.dropWhile_append]
        split
        · rename_i hempty
          rw [List.isEmpty_iff.mp hempty, List.dropWhile_cons_of_neg (by simp [hlive])]
          rfl
        · rfl
      have hbehind := hroom limit hlimit
      simp only [hrest]
      rw [List.length_append, List.length_cons, List.drop_append_of_le_length (by omega)]
      simp

variable [DecidableEq K] {history : History K V} {key : K}

/-- What stands behind a key that was touched has been touched since. -/
theorem Recorded.length_behind_le (h : Recorded p history (front ++ e :: behind))
    (htouched : e.key ∈ history.touches p) :
    behind.length ≤ (history.touchedSince p e.key).dedup.length := by
  obtain ⟨older, holder⟩ := History.exists_append_rtakeWhile htouched
  have habsent : e.key ∉ history.touchedSince p e.key := fun hmem => by
    simpa using List.mem_rtakeWhile_imp hmem
  have hdedup : (e.key :: history.touchedSince p e.key).dedup =
      e.key :: (history.touchedSince p e.key).dedup := List.dedup_cons_of_notMem habsent
  obtain ⟨oldest, holdest⟩ := List.suffix_union_right older
    (e.key :: history.touchedSince p e.key).dedup
  have hlast : (history.touches p).dedup = oldest ++ e.key :: (history.touchedSince p e.key).dedup := by
    rw [holder, List.dedup_append, ← hdedup, holdest]
    rfl
  have hkeys : keys (front ++ e :: behind) = keys front ++ e.key :: keys behind := List.map_append
  have horder := h.order
  rw [hkeys, hlast] at horder
  have hnodup : (oldest ++ e.key :: (history.touchedSince p e.key).dedup).Nodup :=
    hlast ▸ List.nodup_dedup _
  have hlength := (sublist_of_append_cons horder hnodup).length_le
  rwa [keys, List.length_map] at hlength

/-- An entry whose key stands in the history is the one that was written. -/
theorem Recorded.of_stands {loaded deeds since : History K V} {value : V} {written : Instant}
    (h : Recorded p (loaded ++ deeds) entries) (hstands : deeds.Stands key value written since)
    (he : e ∈ entries) (hkey : e.key = key) :
    e.value = value ∧ e.created = written ∧
      e.accessed = (since.filterMap (Event.found? key)).getLastD written := by
  obtain ⟨before', origin, since', hsplit, hstays⟩ := h.explained e he
  obtain ⟨⟨before, rfl⟩, halone⟩ := hstands
  rw [← List.append_assoc] at hsplit
  have hsame := append_cons_inj_of_last (P := fun event => ∃ x : Entry K V, event = .stored x ∧ x.key = key)
    hsplit ⟨_, rfl, rfl⟩ ⟨origin, rfl, hstays.key.symm.trans hkey⟩
    (fun event hevent ⟨x, hx, hxkey⟩ => halone event hevent (hx ▸ hxkey))
    (fun event hevent ⟨x, hx, hxkey⟩ => hstays.unended event hevent (by
      rw [hx, hkey]
      exact hxkey))
  obtain ⟨horigin, rfl⟩ := hsame
  cases horigin
  refine ⟨hstays.value, hstays.created, ?_⟩
  rw [hstays.accessed, hkey]
  rfl

/-- An entry that is safe at `now` has not expired by then. -/
theorem isExpired_of_guards {since : History K V} {written reading : Instant}
    (hguards : History.Guards p key written since now) (hcreated : e.created = written)
    (haccessed : e.accessed = (since.filterMap (Event.found? key)).getLastD written)
    (hreading : reading ≤ now) : p.isExpired e reading = false := by
  rw [Bool.eq_false_iff]
  intro hearly
  obtain ⟨l, hl, hlt⟩ := Policy.isExpired_iff.mp (Policy.isExpired_later hearly hreading)
  rw [← Policy.since_eq_sortKey hl] at hlt
  cases l with
  | timeToLive d =>
    have hlive := hguards.live d (by simp [Policy.timeToLive, hl])
    rw [Lifetime.since, hcreated] at hlt
    exact Int64.lt_irrefl (Int64.lt_of_lt_of_le hlt hlive.le_after)
  | timeToIdle d =>
    have hused := hguards.used d (by simp [Policy.timeToIdle, hl])
    rw [Lifetime.since, haccessed] at hlt
    exact Int64.lt_irrefl (Int64.lt_of_lt_of_le hlt hused.le_after)

section
variable {loaded deeds since : History K V} {value : V} {written reading : Instant}

theorem Recorded.isExpired_eq_false (h : Recorded p (loaded ++ deeds) entries)
    (hstands : deeds.Stands key value written since) (hguards : History.Guards p key written since now)
    (he : e ∈ entries) (hkey : e.key = key) (hreading : reading ≤ now) :
    p.isExpired e reading = false := by
  obtain ⟨-, hcreated, haccessed⟩ := h.of_stands hstands he hkey
  exact isExpired_of_guards hguards hcreated haccessed hreading

/-- A key that is safe does not make room for others. -/
theorem Recorded.mem_keys_cut (h : Recorded p (loaded ++ deeds) entries)
    (hstands : deeds.Stands key value written since) (hguards : History.Guards p key written since now)
    (hreading : reading ≤ now) (hmem : key ∈ keys entries) : key ∈ keys (cut p reading entries) := by
  obtain ⟨e, he, rfl⟩ := List.mem_map.mp hmem
  have hlive := h.isExpired_eq_false hstands hguards he rfl hreading
  obtain ⟨front, behind, rfl⟩ := List.append_of_mem he
  have htouched : e.key ∈ History.touches p (loaded ++ deeds) := by
    obtain ⟨before, htouches⟩ := hstands.touches_eq p loaded
    simp [htouches]
  have hbehind := h.length_behind_le htouched
  rw [hstands.touchedSince_eq p loaded] at hbehind
  exact List.mem_map_of_mem (mem_cut hlive fun limit hlimit =>
    Nat.lt_of_le_of_lt hbehind (hguards.room limit hlimit))

end

/-! ## Operations -/

/-- What was loaded and done since tells what is held, and every key that is safe at `now` is held. -/
structure Retained (p : Policy) (now : Instant) (loaded deeds : History K V)
    (entries : List (Entry K V)) : Prop where
  recorded : Recorded p (loaded ++ deeds) entries
  held : ∀ (key : K) (value : V) (written : Instant) (since : History K V),
    deeds.Stands key value written since → History.Guards p key written since now → key ∈ keys entries

variable {loaded deeds : History K V} {reading : Instant}

theorem mem_keys_without {other : K} (hmem : key ∈ keys entries) (hne : key ≠ other) :
    key ∈ keys (without other entries) := by
  rw [keys_without]
  exact List.mem_filter.mpr ⟨hmem, by simpa using hne⟩

/-- An event that neither writes nor touches a key keeps it safe only if it was safe before. -/
theorem Retained.held_before (h : Retained p now loaded deeds entries) {event : Event K V} {value : V}
    {written : Instant} {since : History K V}
    (hstands : History.Stands (deeds ++ [event]) key value written since)
    (hguards : History.Guards p key written since now) (hstored : ∀ e, event ≠ .stored e)
    (hfound : event.found? key = none) :
    ¬ event.Withdraws key ∧ key ∈ keys entries ∧ ∃ earlier, deeds.Stands key value written earlier ∧
      History.Guards p key written earlier now := by
  rcases History.stands_concat hstands with ⟨-, hevent⟩ | ⟨earlier, rfl, halone, hearlier⟩
  · exact absurd hevent (hstored _)
  · have htouched : event.touched? p ≠ some key := by
      cases event with
      | stored e => exact absurd rfl (hstored e)
      | found other t =>
        have hne : other ≠ key := by
          intro heq
          simp [Event.found?, heq] at hfound
        simp [Event.touched?, hne]
      | missed | removed | cleared => simp [Event.touched?]
    have hearly := hguards.earlier htouched hfound
    exact ⟨halone, h.held key value written earlier hearlier hearly, earlier, hearlier, hearly⟩

theorem retained_insert (h : Retained p now loaded deeds entries) (hreading : reading ≤ now) (key : K)
    (value : V) :
    Retained p now loaded (deeds ++ [.stored (Entry.fresh key value reading)])
      (insert p key value reading entries) := by
  have hrecorded := h.recorded.stored (Entry.fresh key value reading)
  rw [List.append_assoc] at hrecorded
  refine ⟨hrecorded.sublist (sublist_cut p reading _), fun other value' written since hstands hguards => ?_⟩
  refine hrecorded.mem_keys_cut hstands hguards hreading ?_
  rcases History.stands_concat hstands with ⟨-, hevent⟩ | ⟨earlier, rfl, halone, hearlier⟩
  · cases hevent
    exact List.mem_map_of_mem (List.mem_append_right _ (List.mem_singleton.mpr rfl))
  · have hne : key ≠ other := halone
    have hearly := hguards.earlier (by simpa [Event.touched?, Entry.fresh] using hne) rfl
    have hheld := h.held other value' written earlier hearlier hearly
    rw [keys, List.map_append]
    exact List.mem_append_left _ (mem_keys_without hheld (Ne.symm hne))

theorem retained_insertAll (h : Retained p now loaded deeds entries) (pairs : List (K × V × Instant))
    (hreadings : ∀ reading ∈ pairs.map (·.2.2), reading ≤ now) :
    Retained p now loaded
      (deeds ++ pairs.map fun (key, value, now) => Event.stored (Entry.fresh key value now))
      (pairs.foldl (fun entries (key, value, now) => insert p key value now entries) entries) := by
  induction pairs generalizing deeds entries with
  | nil => simpa using h
  | cons pair pairs ih =>
    have hfirst := retained_insert h (hreadings pair.2.2 (by simp)) pair.1 pair.2.1
    have hrest := ih hfirst fun reading hmem => hreadings reading (List.mem_cons_of_mem _ hmem)
    simpa using hrest

theorem mem_keys_touch {other : K} (hmem : key ∈ keys entries) (reading : Instant) :
    key ∈ keys (touch p other reading entries) := by
  obtain ⟨e, he, rfl⟩ := List.mem_map.mp hmem
  unfold touch
  split
  · rw [keys, List.map_append]
    by_cases hkey : e.key = other
    · cases hfind : find? other entries with
      | none => exact absurd (hkey ▸ hmem) (find?_eq_none.mp hfind)
      | some x => simp [hkey, key_of_find? hfind]
    · exact List.mem_append_left _ (mem_keys_without hmem hkey)
  · refine List.mem_map.mpr ⟨_, List.mem_map_of_mem he, ?_⟩
    split <;> rfl

theorem retained_get (h : Retained p now loaded deeds entries) (hreading : reading ≤ now) (key : K) :
    Retained p now loaded (deeds ++ (Action.get key reading).events (get p key reading entries).1)
      (get p key reading entries).2 := by
  have hrecorded := recorded_get h.recorded key reading
  rw [List.append_assoc] at hrecorded
  refine ⟨hrecorded, fun other value written since hstands hguards => ?_⟩
  unfold get at hstands ⊢
  cases hfind : find? key entries with
  | none =>
    rw [hfind] at hstands
    exact (h.held_before hstands hguards (by simp) rfl).2.1
  | some e =>
    rw [hfind] at hstands
    simp only at hstands ⊢
    split
    · -- the key that has expired is not one that is safe
      rename_i hexpired
      rw [if_pos hexpired] at hstands
      obtain ⟨-, hheld, earlier, hearlier, hearly⟩ := h.held_before hstands hguards (by simp) rfl
      refine mem_keys_without hheld fun heq => ?_
      have hlive := h.recorded.isExpired_eq_false hearlier hearly (mem_of_find? hfind)
        ((key_of_find? hfind).trans heq.symm) hreading
      simp [hlive] at hexpired
    · rename_i hlive
      rw [if_neg hlive] at hstands
      refine mem_keys_touch ?_ reading
      by_cases heq : key = other
      · exact heq ▸ key_of_find? hfind ▸ List.mem_map_of_mem (mem_of_find? hfind)
      · exact (h.held_before hstands hguards (by simp) (if_neg heq)).2.1

theorem retained_remove (h : Retained p now loaded deeds entries) (key : K) :
    Retained p now loaded (deeds ++ [.removed key]) (without key entries) := by
  have hrecorded := h.recorded.removed key
  rw [List.append_assoc] at hrecorded
  refine ⟨hrecorded, fun other value written since hstands hguards => ?_⟩
  obtain ⟨halone, hheld, -⟩ := h.held_before hstands hguards (by simp) rfl
  exact mem_keys_without hheld (Ne.symm halone)

theorem retained_trim (h : Retained p now loaded deeds entries) (hreading : reading ≤ now) :
    Retained p now loaded deeds (entries.dropWhile fun e => p.isExpired e reading) := by
  refine ⟨h.recorded.sublist (List.dropWhile_sublist _), fun key value written since hstands hguards => ?_⟩
  obtain ⟨e, he, hkey⟩ := List.mem_map.mp (h.held key value written since hstands hguards)
  have hlive := h.recorded.isExpired_eq_false hstands hguards he hkey hreading
  exact hkey ▸ List.mem_map_of_mem (mem_dropWhile_isExpired he hlive)

/-- No operation makes a key go that is safe. -/
theorem retained_apply (h : Retained p now loaded deeds entries) {action : Action K V}
    (hreadings : ∀ reading ∈ action.readings, reading ≤ now) :
    Retained p now loaded (deeds ++ action.events (apply p entries action).1)
      (apply p entries action).2 := by
  cases action with
  | get key reading => exact retained_get h (hreadings reading (List.mem_singleton.mpr rfl)) key
  | put key value reading =>
    exact retained_insert h (hreadings reading (List.mem_singleton.mpr rfl)) key value
  | putAll pairs => exact retained_insertAll h pairs hreadings
  | remove key => exact retained_remove h key
  | clear =>
    refine ⟨recorded_nil p _, fun key value written since hstands hguards => ?_⟩
    have hcleared : History.Stands (deeds ++ [.cleared]) key value written since := hstands
    exact absurd trivial (h.held_before hcleared hguards (by simp) rfl).1
  | trim reading =>
    have htrimmed := retained_trim h (hreadings reading (List.mem_singleton.mpr rfl))
    simpa [Action.events, apply] using htrimmed

end Entries

/-! ## Caches -/

/-- What the operations in the life of a cache did to entries; loading is none. -/
def Occurrence.deeds {K V : Type} : Occurrence K V → History K V
  | .performed action value => action.events value
  | _ => []

namespace Journal
variable {K V : Type}

def deeds (j : Journal K V) : History K V := j.flatMap Occurrence.deeds

@[simp] theorem deeds_append (i j : Journal K V) : (i ++ j).deeds = i.deeds ++ j.deeds :=
  List.flatMap_append

theorem deeds_of_no_actions {j : Journal K V} (h : j.actions = []) : j.deeds = [] := by
  refine List.flatMap_eq_nil_iff.mpr fun o ho => ?_
  cases o with
  | performed action value => cases List.filterMap_eq_nil_iff.mp h _ ho
  | loaded | published | cancelled | noticed | saveBegan | saveEnded | recorded => rfl

end Journal

namespace Manager
variable {K V : Type} [DecidableEq K] {p : Policy} {m m' : Manager K V} {j occs : Journal K V}
  {now : Instant}

/-- Whatever a snapshot gives, no key of it is held twice, so that what was loaded tells what is held. -/
theorem retained_load (p : Policy) (now : Instant) (snapshot : List (Entry K V)) (reading : Instant) :
    Entries.Retained p now ((Contents.load p reading snapshot).contents.entries.map .stored) []
      (Contents.load p reading snapshot).contents.entries := by
  have hnodup : (Entries.keys (Contents.load p reading snapshot).contents.entries).Nodup :=
    Store.nodup_keys_entries (Contents.sound_load p reading snapshot).keyed
  have hall := (Entries.recorded_nil p []).storedAll hnodup
  refine ⟨?_, fun key value written since hstands => ?_⟩
  · rw [List.append_nil]
    exact hall
  · obtain ⟨⟨before, hnone⟩, -⟩ := hstands
    simp at hnone

theorem Moves.retained (hmoves : Moves m m' occs) (hpolicy : m.policy = p) (hsound : m.contents.Sound p)
    (hfresh : m.phase = .loading → j.deeds = [])
    (hreadings : ∀ reading ∈ Entries.readings occs.actions, reading ≤ now)
    (h : ∃ loaded, Entries.Retained p now loaded j.deeds m.contents.entries) :
    ∃ loaded, Entries.Retained p now loaded (j ++ occs).deeds m'.contents.entries := by
  have hquiet : ∃ loaded, Entries.Retained p now loaded (j.deeds ++ []) m.contents.entries := by
    rw [List.append_nil]
    exact h
  subst hpolicy
  rw [Journal.deeds_append]
  cases hmoves with
  | load snapshot reading hphase =>
    have hdeeds : Journal.deeds [.loaded snapshot reading, .published .ready] = ([] : History K V) := rfl
    rw [hfresh hphase, hdeeds]
    exact ⟨_, retained_load m.policy now snapshot reading⟩
  | act action =>
    obtain ⟨loaded, hretained⟩ := h
    have hread : ∀ reading ∈ action.readings, reading ≤ now := fun reading hmem =>
      hreadings reading (by simpa [Entries.readings, Journal.actions, Occurrence.action?] using hmem)
    have hafter := Entries.retained_apply hretained hread
    rw [← Contents.entries_apply action hsound] at hafter
    have hdeeds : Journal.deeds [.performed action (m.perform action).value] =
        action.events (m.perform action).value := List.append_nil _
    rw [hdeeds]
    exact ⟨loaded, hafter⟩
  | cancel | wake | elapse | mark | save | skip | finish | record | drain | announceDraining
  | announceClosed => exact hquiet

theorem Run.retained {persistent : Bool} (hrun : Run (Manager.start p persistent) j m)
    (hreadings : ∀ reading ∈ Entries.readings j.actions, reading ≤ now) :
    ∃ loaded, Entries.Retained p now loaded j.deeds m.contents.entries := by
  refine hrun.induction (P := fun j m => (∀ reading ∈ Entries.readings j.actions, reading ≤ now) →
      ∃ loaded, Entries.Retained p now loaded j.deeds m.contents.entries)
    (fun _ => ⟨[], Entries.recorded_nil p _, fun key value written since hstands => ?_⟩) ?_ hreadings
  · obtain ⟨⟨before, hnone⟩, -⟩ := hstands
    simp [Journal.deeds] at hnone
  · intro j m m' occs hbefore ih hmoves hreadings
    rw [Journal.actions_append, Entries.readings, List.flatMap_append] at hreadings
    have hearlier := ih fun reading hmem => hreadings reading (List.mem_append_left _ hmem)
    refine hmoves.retained hbefore.policy_eq.1 hbefore.sound (fun hloading => ?_)
      (fun reading hmem => hreadings reading (List.mem_append_right _ hmem)) hearlier
    rcases hbefore.loaded_once with hunloaded | ⟨_, _, _, hfollows⟩
    · exact Journal.deeds_of_no_actions hunloaded.actions
    · exact absurd hloading hfollows.loaded

/-- Whatever the snapshot held, a key that was written, and then neither written again nor taken out, is
found with its value, as long as fewer other keys have been touched since its latest touch than there is
room for, its limit on life is not exceeded, and the clock has shown nothing later than now. -/
theorem run_retains {persistent : Bool} {key : K} {value : V} {written : Instant} {since : History K V}
    (hrun : Run (Manager.start p persistent) j m)
    (hclock : ∀ reading ∈ Entries.readings j.actions, reading ≤ now)
    (hstands : j.deeds.Stands key value written since)
    (hguards : History.Guards p key written since now) :
    m.phase ≠ .loading ∧ (m.perform (.get key now)).value = some value := by
  obtain ⟨loaded, hretained⟩ := hrun.retained hclock
  have hheld := hretained.held key value written since hstands hguards
  constructor
  · rcases hrun.loaded_once with hunloaded | ⟨_, _, _, hfollows⟩
    · obtain ⟨⟨before, hdeeds⟩, -⟩ := hstands
      rw [Journal.deeds_of_no_actions hunloaded.actions] at hdeeds
      simp at hdeeds
    · exact hfollows.loaded
  · have hvalue := congrArg Prod.fst (Contents.entries_get key now hrun.sound)
    rw [hrun.perform_eq]
    refine hvalue.trans ?_
    unfold Entries.get
    cases hfind : Entries.find? key m.contents.entries with
    | none => exact absurd hheld (Entries.find?_eq_none.mp hfind)
    | some e =>
      have hmem := Entries.mem_of_find? hfind
      have hkey := Entries.key_of_find? hfind
      have hlive := hretained.recorded.isExpired_eq_false hstands hguards hmem hkey (Int64.le_refl now)
      simp only [hlive, Bool.false_eq_true, if_false]
      exact congrArg some (hretained.recorded.of_stands hstands hmem hkey).1

/-- The snapshot holds a key twice, with dates from the future. A key is written and read, another one comes
and goes, and a third one takes the last room; at the very end of its life the first is found. -/
theorem run_retains_of_three :
    ∃ (j : Journal Nat Nat) (m : Manager Nat Nat) (since : History Nat Nat),
      Run (Manager.start smallPolicy true) j m ∧
        j.loads = [([⟨1, 10, 0, 5⟩, ⟨1, 11, 90, 80⟩], 6)] ∧
        (∀ reading ∈ Entries.readings j.actions, reading ≤ 19) ∧ j.deeds.Stands 3 30 7 since ∧
        History.Guards smallPolicy 3 7 since 19 ∧ m.phase ≠ .loading ∧
        (m.perform (.get 3 19)).value = some 30 := by
  have hsorted : Entries.sorted smallPolicy ([⟨1, 10, 0, 5⟩, ⟨1, 11, 90, 80⟩] : List (Entry Nat Nat)) = _ :=
    Entries.sorted_eq_of_perm .rfl (by decide) (by decide)
  have hstart : Run (Manager.start smallPolicy true : Manager Nat Nat) [] _ := Run.nil
  have hloaded := hstart.step (.load [⟨1, 10, 0, 5⟩, ⟨1, 11, 90, 80⟩] 6) (step?_load 6 rfl hsorted)
  have hwritten := hloaded.step (.act (.putAll [(3, 30, 7), (4, 40, 8)])) rfl
  have hread := hwritten.step (.act (.get 3 9)) rfl
  have hremoved := hread.step (.act (.remove 4)) rfl
  have hlast := hremoved.step (.act (.put 5 50 12)) rfl
  have hrun := hlast.step (.act (.trim 18)) rfl
  have hclock : ∀ reading ∈ ([7, 8, 9, 12, 18] : List Instant), reading ≤ 19 := by
    intro reading hmem
    simp only [List.mem_cons, List.not_mem_nil, or_false] at hmem
    rcases hmem with rfl | rfl | rfl | rfl | rfl <;> decide
  have hstands : History.Stands
      [.stored (Entry.fresh 3 30 7), .stored (Entry.fresh 4 40 8), .found 3 9, .removed 4,
        .stored (Entry.fresh 5 50 12)] 3 30 7
      [.stored (Entry.fresh 4 40 8), .found 3 9, .removed 4, .stored (Entry.fresh 5 50 12)] :=
    ⟨⟨[], rfl⟩, by simp [Event.Withdraws, Entry.fresh]⟩
  have hguards : History.Guards smallPolicy 3 7
      [.stored (Entry.fresh 4 40 8), .found 3 9, .removed 4, .stored (Entry.fresh 5 50 12)] 19 := by
    refine ⟨fun limit hlimit => ?_, fun d hd => ?_, fun d hd => ?_⟩
    · cases hlimit
      decide
    · cases hd
    · cases hd
      exact ⟨by decide, by decide⟩
  exact ⟨_, _, _, hrun, rfl, hclock, hstands, hguards, run_retains hrun hclock hstands hguards⟩

end Manager

end ExpiringCache
