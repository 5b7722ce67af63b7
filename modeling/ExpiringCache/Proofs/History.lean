import ExpiringCache.Proofs.EvictionOrder

/-!
What a cache holds, told from what happened to it. Each entry came in at the last writing of its key, or
with the snapshot, and was last read when it says so; nothing has ended its stay since. The entries stand
in the order in which their keys were touched last. None of this depends on the clock, which may go back.
-/
namespace ExpiringCache
set_option autoImplicit false

/-! ## Events -/

/-- What can happen to entries, apart from their being given up for a limit. -/
inductive Event (K V : Type) where
  /-- an entry comes in, as it was loaded or written -/
  | stored (e : Entry K V)
  | found (key : K) (now : Instant)
  | missed (key : K)
  | removed (key : K)
  | cleared

namespace Event
variable {K V : Type}

/-- No entry that was under the key before stays there. -/
def Ends (key : K) : Event K V → Prop
  | .stored e => e.key = key
  | .found _ _ => False
  | .missed other | .removed other => other = key
  | .cleared => True

/-- The key that comes to be the newest. A key that is found does so only if use prolongs life. -/
def touched? (p : Policy) : Event K V → Option K
  | .stored e => some e.key
  | .found key _ => if p.timeToIdle.isSome then some key else none
  | .missed _ | .removed _ | .cleared => none

variable [DecidableEq K]

def found? (key : K) : Event K V → Option Instant
  | .found other now => if other = key then some now else none
  | .stored _ | .missed _ | .removed _ | .cleared => none

end Event

abbrev History (K V : Type) := List (Event K V)

namespace History
variable {K V : Type}

/-- The keys in the order in which they were touched, those of a snapshot first. -/
def touches (p : Policy) (history : History K V) : List K := history.filterMap (Event.touched? p)

theorem touches_append (p : Policy) (as bs : History K V) :
    touches p (as ++ bs) = touches p as ++ touches p bs :=
  List.filterMap_append

variable [DecidableEq K]

/-- The entry `e` is `origin` after it has been there for `since`: only its last reading tells the two
apart, and nothing has ended its stay. -/
structure Stays (origin : Entry K V) (since : History K V) (e : Entry K V) : Prop where
  key : e.key = origin.key
  value : e.value = origin.value
  created : e.created = origin.created
  accessed : e.accessed = (since.filterMap (Event.found? e.key)).getLastD origin.accessed
  unended : ∀ event ∈ since, ¬ event.Ends e.key

/-- The history tells how `e` came in and what became of it since. -/
def Explains (history : History K V) (e : Entry K V) : Prop :=
  ∃ (before : History K V) (origin : Entry K V) (since : History K V),
    history = before ++ .stored origin :: since ∧ Stays origin since e

variable {p : Policy} {history : History K V}

theorem explains_stored (history : History K V) (e : Entry K V) :
    Explains (history ++ [.stored e]) e :=
  ⟨history, e, [], rfl, rfl, rfl, rfl, rfl, by simp⟩

theorem Explains.concat {e : Entry K V} (h : Explains history e) {event : Event K V}
    (hends : ¬ event.Ends e.key) (hfound : event.found? e.key = none) :
    Explains (history ++ [event]) e := by
  obtain ⟨before, origin, since, rfl, hstays⟩ := h
  refine ⟨before, origin, since ++ [event], by simp, hstays.key, hstays.value, hstays.created, ?_, ?_⟩
  · rw [List.filterMap_append, List.filterMap_cons, hfound]
    simpa using hstays.accessed
  · intro other hother
    rcases List.mem_append.mp hother with hother | hother
    · exact hstays.unended other hother
    · rw [List.mem_singleton.mp hother]
      exact hends

theorem Explains.found {e : Entry K V} (h : Explains history e) (now : Instant) :
    Explains (history ++ [.found e.key now]) (e.accessedAt now) := by
  obtain ⟨before, origin, since, rfl, hstays⟩ := h
  refine ⟨before, origin, since ++ [.found e.key now], by simp, hstays.key, hstays.value,
    hstays.created, ?_, ?_⟩
  · rw [List.filterMap_append]
    simp [Event.found?]
  · intro other hother
    rcases List.mem_append.mp hother with hother | hother
    · exact hstays.unended other hother
    · rw [List.mem_singleton.mp hother]
      exact id

end History

/-! ## Lists of entries -/

namespace Entries
variable {K V : Type} [DecidableEq K] {p : Policy} {history : History K V} {entries : List (Entry K V)}

theorem keys_without (key : K) (entries : List (Entry K V)) :
    keys (without key entries) = (keys entries).filter (· ≠ key) := by
  rw [keys, keys, without, List.filter_map]
  rfl

theorem key_ne_of_mem_without {key : K} {e : Entry K V} (h : e ∈ without key entries) :
    e.key ≠ key := by
  simpa [without] using (List.mem_filter.mp h).2

theorem mem_of_mem_without {key : K} {e : Entry K V} (h : e ∈ without key entries) : e ∈ entries :=
  (List.mem_filter.mp h).1

/-- The entries are what the history tells: each is explained, and they stand in the order of the last
touches. -/
structure Recorded (p : Policy) (history : History K V) (entries : List (Entry K V)) : Prop where
  nodup : (keys entries).Nodup
  explained : ∀ e ∈ entries, history.Explains e
  order : (keys entries).Sublist (history.touches p).dedup

theorem recorded_nil (p : Policy) (history : History K V) : Recorded p history [] :=
  ⟨List.nodup_nil, by simp, List.nil_sublist _⟩

theorem Recorded.sublist {some : List (Entry K V)} (h : Recorded p history entries)
    (hsub : some.Sublist entries) : Recorded p history some :=
  ⟨h.nodup.sublist (hsub.map _), fun e he => h.explained e (hsub.subset he),
    (hsub.map _).trans h.order⟩

/-- A key comes to the back, and its entry is explained anew. -/
theorem Recorded.touched (h : Recorded p history entries) {event : Event K V} {e : Entry K V}
    (htouched : event.touched? p = some e.key) (hexplained : History.Explains (history ++ [event]) e)
    (hothers : ∀ key, key ≠ e.key → ¬ event.Ends key ∧ event.found? key = none) :
    Recorded p (history ++ [event]) (without e.key entries ++ [e]) := by
  have hkeys : keys (without e.key entries ++ [e]) = (keys entries).filter (· ≠ e.key) ++ [e.key] := by
    rw [← keys_without]
    exact List.map_append
  refine ⟨?_, ?_, ?_⟩
  · rw [hkeys, List.nodup_append]
    refine ⟨h.nodup.filter _, by simp, ?_⟩
    intro a ha b hb
    rw [List.mem_singleton.mp hb]
    simpa using (List.mem_filter.mp ha).2
  · intro x hx
    rcases List.mem_append.mp hx with hx | hx
    · obtain ⟨hends, hfound⟩ := hothers x.key (key_ne_of_mem_without hx)
      exact (h.explained x (mem_of_mem_without hx)).concat hends hfound
    · rw [List.mem_singleton.mp hx]
      exact hexplained
  · have htouches : History.touches p (history ++ [event]) = history.touches p ++ [e.key] := by
      rw [History.touches_append]
      simp [History.touches, htouched]
    rw [hkeys, htouches, dedup_concat]
    exact (h.order.filter _).append (List.Sublist.refl _)

theorem Recorded.stored (h : Recorded p history entries) (e : Entry K V) :
    Recorded p (history ++ [.stored e]) (without e.key entries ++ [e]) :=
  h.touched rfl (History.explains_stored history e) fun _ hkey => ⟨fun heq => hkey heq.symm, rfl⟩

theorem Recorded.storedAll (h : Recorded p history entries) {incoming : List (Entry K V)}
    (hnodup : (keys (entries ++ incoming)).Nodup) :
    Recorded p (history ++ incoming.map .stored) (entries ++ incoming) := by
  induction incoming generalizing history entries with
  | nil => simpa using h
  | cons e rest ih =>
    have habsent : e.key ∉ keys entries := by
      intro hmem
      rw [keys, List.map_append, List.nodup_append] at hnodup
      exact hnodup.2.2 e.key hmem e.key (by simp) rfl
    have hstored := h.stored e
    rw [without_eq_self habsent] at hstored
    have hrest := ih hstored (by rw [List.append_assoc]; exact hnodup)
    simpa using hrest

theorem Recorded.ended (h : Recorded p history entries) {key : K} {event : Event K V}
    (htouched : event.touched? p = none)
    (hothers : ∀ other, other ≠ key → ¬ event.Ends other ∧ event.found? other = none) :
    Recorded p (history ++ [event]) (without key entries) := by
  have hless := h.sublist (List.filter_sublist (p := fun e => e.key ≠ key))
  refine ⟨hless.nodup, fun e he => ?_, ?_⟩
  · obtain ⟨hends, hfound⟩ := hothers e.key (key_ne_of_mem_without he)
    exact (hless.explained e he).concat hends hfound
  · have htouches : History.touches p (history ++ [event]) = history.touches p := by
      rw [History.touches_append]
      simp [History.touches, htouched]
    rw [htouches]
    exact hless.order

theorem Recorded.missed (h : Recorded p history entries) (key : K) :
    Recorded p (history ++ [.missed key]) (without key entries) :=
  h.ended rfl fun _ hkey => ⟨fun heq => hkey heq.symm, rfl⟩

theorem Recorded.removed (h : Recorded p history entries) (key : K) :
    Recorded p (history ++ [.removed key]) (without key entries) :=
  h.ended rfl fun _ hkey => ⟨fun heq => hkey heq.symm, rfl⟩

/-! ## Operations -/

theorem recorded_insert (h : Recorded p history entries) (key : K) (value : V) (now : Instant) :
    Recorded p (history ++ [.stored (Entry.fresh key value now)]) (insert p key value now entries) :=
  (h.stored (Entry.fresh key value now)).sublist (sublist_cut p now _)

theorem recorded_insertAll (h : Recorded p history entries) (pairs : List (K × V × Instant)) :
    Recorded p
      (history ++ pairs.map fun (key, value, now) => Event.stored (Entry.fresh key value now))
      (pairs.foldl (fun entries (key, value, now) => insert p key value now entries) entries) := by
  induction pairs generalizing history entries with
  | nil => simpa using h
  | cons pair pairs ih =>
    have hrest := ih (recorded_insert h pair.1 pair.2.1 pair.2.2)
    simpa using hrest

/-- A hit changes the date of one entry; where that stands depends on the policy. -/
theorem recorded_touch (h : Recorded p history entries) {key : K} {e : Entry K V}
    (hfind : find? key entries = some e) (now : Instant) :
    Recorded p (history ++ [.found key now]) (touch p key now entries) := by
  have hkey : e.key = key := key_of_find? hfind
  have hothers : ∀ other, other ≠ key → ¬ (Event.found key now : Event K V).Ends other ∧
      (Event.found key now : Event K V).found? other = none :=
    fun other hother => ⟨id, if_neg (Ne.symm hother)⟩
  have hexplained : History.Explains (history ++ [.found key now]) (e.accessedAt now) :=
    hkey ▸ (h.explained e (mem_of_find? hfind)).found now
  unfold touch
  cases hidle : p.timeToIdle.isSome with
  | true =>
    rw [if_pos rfl, hfind]
    subst hkey
    exact h.touched (e := e.accessedAt now) (by simp [Event.touched?, hidle]) hexplained hothers
  | false =>
    -- nothing moves, and of one entry the date changes
    rw [if_neg (by simp)]
    have hkeys : keys (entries.map fun x => if x.key = key then x.accessedAt now else x) =
        keys entries := by
      rw [keys, keys, List.map_map]
      refine List.map_congr_left fun x _ => ?_
      simp only [Function.comp_apply]
      split <;> rfl
    refine ⟨hkeys ▸ h.nodup, fun x hx => ?_, ?_⟩
    · obtain ⟨y, hy, rfl⟩ := List.mem_map.mp hx
      by_cases hykey : y.key = key
      · rw [if_pos hykey, eq_of_find? h.nodup hfind hy hykey]
        exact hexplained
      · rw [if_neg hykey]
        obtain ⟨hends, hfound⟩ := hothers y.key hykey
        exact (h.explained y hy).concat hends hfound
    · have htouches : History.touches p (history ++ [Event.found key now]) = history.touches p := by
        rw [History.touches_append]
        simp [History.touches, Event.touched?, hidle]
      rw [hkeys, htouches]
      exact h.order

end Entries

/-- What an operation does to entries, if it found `value`. -/
def Action.events {K V : Type} : Action K V → Option V → History K V
  | .get key now, some _ => [.found key now]
  | .get key _, none => [.missed key]
  | .put key value now, _ => [.stored (Entry.fresh key value now)]
  | .putAll pairs, _ => pairs.map fun (key, value, now) => .stored (Entry.fresh key value now)
  | .remove key, _ => [.removed key]
  | .clear, _ => [.cleared]
  | .trim _, _ => []

namespace Entries
variable {K V : Type} [DecidableEq K] {p : Policy} {history : History K V} {entries : List (Entry K V)}

theorem recorded_get (h : Recorded p history entries) (key : K) (now : Instant) :
    Recorded p (history ++ (Action.get key now).events (get p key now entries).1)
      (get p key now entries).2 := by
  unfold get
  cases hfind : find? key entries with
  | none =>
    have hmissed := h.missed key
    rw [without_eq_self (find?_eq_none.mp hfind)] at hmissed
    exact hmissed
  | some e =>
    simp only
    split
    · exact h.missed key
    · exact recorded_touch h hfind now

/-- Every operation leaves what its part of the history tells. -/
theorem recorded_apply (h : Recorded p history entries) (action : Action K V) :
    Recorded p (history ++ action.events (apply p entries action).1) (apply p entries action).2 := by
  cases action with
  | get key now => exact recorded_get h key now
  | put key value now => exact recorded_insert h key value now
  | putAll pairs => exact recorded_insertAll h pairs
  | remove key => exact h.removed key
  | clear => exact recorded_nil p _
  | trim now =>
    have hrest := h.sublist (List.dropWhile_sublist fun e => p.isExpired e now)
    simpa [Action.events, apply] using hrest

theorem mem_of_get {key : K} {now : Instant} {value : V} (h : (get p key now entries).1 = some value) :
    ∃ e ∈ entries, e.key = key ∧ e.value = value ∧ p.isExpired e now = false := by
  unfold get at h
  split at h
  · cases h
  · rename_i e hfind
    split at h
    · cases h
    · rename_i hexp
      exact ⟨e, mem_of_find? hfind, key_of_find? hfind, Option.some.inj h, by simpa using hexp⟩

end Entries

/-! ## Journals -/

/-- What an occurrence in the life of a cache does to entries. A snapshot comes in in the order of the
policy. -/
def Occurrence.events {K V : Type} (p : Policy) : Occurrence K V → History K V
  | .loaded snapshot _ => (Entries.sorted p snapshot).map .stored
  | .performed action value => action.events value
  | _ => []

namespace Journal
variable {K V : Type}

def history (p : Policy) (j : Journal K V) : History K V := j.flatMap (Occurrence.events p)

theorem history_append (p : Policy) (i j : Journal K V) :
    (i ++ j).history p = i.history p ++ j.history p :=
  List.flatMap_append

theorem history_of_unloaded (p : Policy) {j : Journal K V} (hloads : j.loads = [])
    (hactions : j.actions = []) : j.history p = [] := by
  refine List.flatMap_eq_nil_iff.mpr fun o ho => ?_
  cases o with
  | loaded snapshot now => cases List.filterMap_eq_nil_iff.mp hloads _ ho
  | performed action value => cases List.filterMap_eq_nil_iff.mp hactions _ ho
  | published | cancelled | noticed | saveBegan | saveEnded | recorded => rfl

end Journal

/-! ## Caches -/

namespace Manager
variable {K V : Type} [DecidableEq K] {p : Policy} {m m' : Manager K V} {j occs : Journal K V}

/-- The load brings in the snapshot, from the oldest entry to the newest, and may then give some up. -/
theorem recorded_load (p : Policy) (now : Instant) {snapshot : List (Entry K V)}
    (hkeys : (Entries.keys snapshot).Nodup) :
    Entries.Recorded p ((Entries.sorted p snapshot).map .stored)
      (Contents.load p now snapshot).contents.entries := by
  have hsorted : (Entries.keys ([] ++ Entries.sorted p snapshot)).Nodup :=
    ((List.mergeSort_perm snapshot _).map _).nodup_iff.mpr hkeys
  have hall := (Entries.recorded_nil p []).storedAll hsorted
  rw [Contents.entries_load p now hkeys]
  exact hall.sublist (Entries.sublist_cut p now _)

theorem Moves.recorded (hmoves : Moves m m' occs) (hpolicy : m.policy = p)
    (hsound : m.contents.Sound p) (hfresh : m.phase = .loading → j.history p = [])
    (hkeys : ∀ load ∈ occs.loads, (Entries.keys load.1).Nodup)
    (h : Entries.Recorded p (j.history p) m.contents.entries) :
    Entries.Recorded p ((j ++ occs).history p) m'.contents.entries := by
  have hquiet : Entries.Recorded p (j.history p ++ []) m.contents.entries := by
    rw [List.append_nil]
    exact h
  subst hpolicy
  rw [Journal.history_append]
  cases hmoves with
  | load snapshot now hphase =>
    have hhistory : Journal.history m.policy [.loaded snapshot now, .published .ready] =
        (Entries.sorted m.policy snapshot).map .stored := List.append_nil _
    rw [hfresh hphase, List.nil_append, hhistory]
    exact recorded_load m.policy now (hkeys (snapshot, now) (List.mem_cons_self ..))
  | act action =>
    have hafter := Entries.recorded_apply h action
    rw [← Contents.entries_apply action hsound] at hafter
    have hhistory : Journal.history m.policy [.performed action (m.perform action).value] =
        action.events (m.perform action).value := List.append_nil _
    rw [hhistory]
    exact hafter
  | cancel | wake | elapse | mark | save | skip | finish | record | drain | announceDraining
  | announceClosed => exact hquiet

theorem Run.recorded {persistent : Bool} (hrun : Run (Manager.start p persistent) j m)
    (hkeys : ∀ load ∈ j.loads, (Entries.keys load.1).Nodup) :
    Entries.Recorded p (j.history p) m.contents.entries := by
  refine hrun.induction (P := fun j m => (∀ load ∈ j.loads, (Entries.keys load.1).Nodup) →
      Entries.Recorded p (j.history p) m.contents.entries)
    (fun _ => Entries.recorded_nil p _) ?_ hkeys
  intro j m m' occs hbefore ih hmoves hkeys
  rw [Journal.loads_append] at hkeys
  have hrecorded := ih fun load hload => hkeys load (List.mem_append_left _ hload)
  refine hmoves.recorded hbefore.policy_eq.1 hbefore.sound (fun hloading => ?_)
    (fun load hload => hkeys load (List.mem_append_right _ hload)) hrecorded
  rcases hbefore.loaded_once with hunloaded | ⟨_, _, _, hfollows⟩
  · exact Journal.history_of_unloaded p hunloaded.loads hunloaded.actions
  · exact absurd hloading hfollows.loaded

/-- Everything that is held, and everything that was ever found, is told by the history. -/
structure Historical (p : Policy) (j : Journal K V) (m : Manager K V) : Prop where
  explained : ∀ e ∈ m.contents.entries, (j.history p).Explains e
  /-- the entries stand in the order of the last touches -/
  order : (Entries.keys m.contents.entries).Sublist ((j.history p).touches p).dedup
  /-- a key was found with the value that the history before tells, of an entry that had not expired -/
  hits : ∀ (before after : Journal K V) (key : K) (now : Instant) (value : V),
    j = before ++ .performed (.get key now) (some value) :: after →
      ∃ e : Entry K V, e.key = key ∧ e.value = value ∧ p.isExpired e now = false ∧
        (before.history p).Explains e

/-- However operations, saving and a shutdown interleave, and however the clock moves, what a cache holds
and what it finds is told by its history. -/
theorem run_historical {persistent : Bool} (hrun : Run (Manager.start p persistent) j m)
    (hkeys : ∀ load ∈ j.loads, (Entries.keys load.1).Nodup) : Historical p j m := by
  have hrecorded := hrun.recorded hkeys
  refine ⟨hrecorded.explained, hrecorded.order, fun before after key now value hj => ?_⟩
  obtain ⟨mid, hmid, -, hvalue⟩ := hrun.at_performed hj
  have hbefore := hmid.recorded fun load hload => hkeys load (by
    rw [hj, Journal.loads_append]
    exact List.mem_append_left _ hload)
  have hget : (Entries.get p key now mid.contents.entries).1 = some value := by
    rw [← Contents.entries_get key now hmid.sound, ← hvalue, hmid.perform_eq]
    rfl
  obtain ⟨e, he, hkey, rfl, hlive⟩ := Entries.mem_of_get hget
  exact ⟨e, hkey, rfl, hlive, hbefore.explained e he⟩

/-- A loaded key is found, the clock goes back, another key is written, and the first is found again. -/
theorem run_historical_of_two_hits :
    ∃ (j : Journal Nat Nat) (m : Manager Nat Nat),
      Run (Manager.start smallPolicy true) j m ∧
        (∀ load ∈ j.loads, (Entries.keys load.1).Nodup) ∧
        Entries.readings j.actions = [8, 4, 3] ∧ Historical smallPolicy j m := by
  have hstart : Run (Manager.start smallPolicy true : Manager Nat Nat) [] _ := Run.nil
  have hloaded := hstart.step (.load [⟨1, 10, 0, 5⟩, ⟨2, 20, 0, 0⟩] 6) rfl
  have hfound := hloaded.step (.act (.get 2 8)) rfl
  have hwritten := hfound.step (.act (.put 3 30 4)) rfl
  have hrun := hwritten.step (.act (.get 2 3)) rfl
  have hkeys : ∀ load ∈ [(([⟨1, 10, 0, 5⟩, ⟨2, 20, 0, 0⟩] : List (Entry Nat Nat)), (6 : Instant))],
      (Entries.keys load.1).Nodup := by decide
  exact ⟨_, _, hrun, hkeys, rfl, run_historical hrun hkeys⟩

end Manager

end ExpiringCache
