import ExpiringCache.Proofs.Traffic

/-!
What becomes of entries. Each entry that was loaded, or written under a key that was not held, is still held,
or someone took it out, or it is counted as evicted or as expired: none is counted twice and none is lost
from the counters, whatever the clock does. Hits and misses count the lookups.
-/
namespace ExpiringCache
set_option autoImplicit false

/-! ## Keys of a store -/

namespace Store
variable {K V : Type} [DecidableEq K]

theorem mem_keys_putAll {s : Store K V} {other : K} {entries : List (Entry K V)} :
    other ∈ (s.putAll entries).keys ↔ other ∈ s.keys ∨ other ∈ Entries.keys entries := by
  induction entries generalizing s with
  | nil => simp [putAll, putSlots, Entries.keys]
  | cons e rest ih =>
    have hrest : other ∈ (s.putAll (e :: rest)).keys ↔
        other ∈ (s.put e.key e).keys ∨ other ∈ Entries.keys rest := ih
    rw [hrest, mem_keys_put, Entries.keys, Entries.keys, List.map_cons, List.mem_cons]
    tauto

/-! ## Sizes -/

theorem size_put (s : Store K V) (key : K) (e : Entry K V) :
    (s.put key e).size = s.size + if (s.find? key).isSome then 0 else 1 := by
  rw [size_eq_length_keys, (keys_put_perm s key e).length_eq, size_eq_length_keys, isSome_find?]
  by_cases hmem : key ∈ s.keys <;> simp [hmem]

theorem size_remove (s : Store K V) (key : K) :
    (s.remove key).2.size + (if (s.find? key).isSome then 1 else 0) = s.size := by
  have hkeys : (s.remove key).2.keys = s.keys.erase key := by
    rw [keys_remove, s.nodup_keys.erase_eq_filter]
    exact List.filter_congr fun other _ => by simp [bne, decide_not, beq_eq_decide]
  rw [size_eq_length_keys, hkeys, size_eq_length_keys, isSome_find?]
  by_cases hmem : key ∈ s.keys
  · have hpos := List.length_pos_of_mem hmem
    simp only [hmem, decide_true, if_true, List.length_erase_of_mem]
    omega
  · simp [hmem, List.erase_of_not_mem]

theorem size_get (s : Store K V) (key : K) : (s.get key).2.size = s.size := by
  cases hfind : s.find? key with
  | none => rw [get_of_absent hfind]
  | some e =>
    cases horder : s.order with
    | insertion => rw [get_insertion horder]
    | access =>
      rw [get_access horder hfind, size_put, hfind]
      rfl

/-- Entries that are all written to an empty store leave as many as there are different keys. -/
theorem size_putAll_empty (order : Order) (entries : List (Entry K V)) :
    ((Store.empty order).putAll entries).size = (Entries.keys entries).dedup.length := by
  have hkeys : ((Store.empty order : Store K V).putAll entries).keys.Perm
      (Entries.keys entries).dedup := by
    rw [List.perm_ext_iff_of_nodup (nodup_keys _) (List.nodup_dedup _)]
    intro key
    rw [mem_keys_putAll, List.mem_dedup]
    simp [keys, empty]
  rw [size_eq_length_keys, hkeys.length_eq]

end Store

/-! ## Entries that came in -/

namespace Contents
variable {K V : Type}

/-- The entries that came in and were not taken out by anybody: those that are held and those that were
given up. -/
def accounted (c : Contents K V) : Nat := c.size + c.stats.evictions + c.stats.expirations

theorem Sheds.accounted_eq {c c' : Contents K V} (h : c.Sheds c') : c'.accounted = c.accounted := by
  obtain ⟨expired, evicted, hsize, hstats⟩ := h
  simp only [accounted, hstats, Stats.expire, Stats.evict]
  omega

/-- Entries that somebody brought in or took out. An entry that is written in place of another one of its key
counts as neither. -/
structure Turnover where
  added : Nat := 0
  removed : Nat := 0
  /-- by a user, or because memory was critical -/
  cleared : Nat := 0

instance : Add Turnover where
  add a b := ⟨a.added + b.added, a.removed + b.removed, a.cleared + b.cleared⟩

variable [DecidableEq K]

def holds (c : Contents K V) (key : K) : Bool := (c.store.find? key).isSome

/-- How many pairs come under a key that is not held just before. -/
def newcomers (p : Policy) : Contents K V → List (K × V × Instant) → Nat
  | _, [] => 0
  | c, (key, value, now) :: pairs =>
    (if c.holds key then 0 else 1) + newcomers p (c.insert p key value now) pairs

def turnover (p : Policy) (c : Contents K V) : Action K V → Turnover
  | .put key value now => { added := c.newcomers p [(key, value, now)] }
  | .putAll pairs => { added := c.newcomers p pairs }
  | .remove key => { removed := if c.holds key then 1 else 0 }
  | .clear => { cleared := c.size }
  | .get _ _ | .trim _ => {}

def turnoverAll (p : Policy) : Contents K V → List (Action K V) → Turnover
  | _, [] => {}
  | c, action :: actions => c.turnover p action + (c.apply p action).contents.turnoverAll p actions

theorem accounted_insert (p : Policy) (key : K) (value : V) (now : Instant) (c : Contents K V) :
    (c.insert p key value now).accounted = c.accounted + if c.holds key then 0 else 1 := by
  have hput : (c.written key value now).size = (c.store.remove key).2.size + 1 := by
    rw [size, written, Store.size_put, Store.find?_remove]
    rfl
  have hstats : (c.written key value now).stats = c.stats := rfl
  have hremove := c.store.size_remove key
  rw [(sheds_insert p key value now c).accounted_eq, accounted, accounted, hput, hstats, holds, size,
    ← hremove]
  split <;> omega

theorem accounted_insertAll (p : Policy) (pairs : List (K × V × Instant)) (c : Contents K V) :
    (pairs.foldl (fun c (key, value, now) => c.insert p key value now) c).accounted =
      c.accounted + c.newcomers p pairs := by
  induction pairs generalizing c with
  | nil => rfl
  | cons pair pairs ih =>
    obtain ⟨key, value, now⟩ := pair
    have hrest := ih (c.insert p key value now)
    rw [accounted_insert, Nat.add_assoc] at hrest
    exact hrest

theorem accounted_get (p : Policy) (key : K) (now : Instant) (c : Contents K V) :
    (c.get p key now).contents.accounted = c.accounted := by
  have hsize := c.store.size_get key
  have hfound := c.store.find?_get key
  have hfst := fst_get key c.store
  unfold get
  split
  · rename_i store hget
    rw [hget] at hsize
    simp only [accounted, size, hsize]
    rfl
  · rename_i e store hget
    rw [hget] at hsize hfound hfst
    have hheld : (store.find? key).isSome = true := by
      rw [hfound, ← hfst]
      rfl
    split
    -- what has expired is taken out and counted; otherwise it is written again under its key
    · have hremove := store.size_remove key
      rw [if_pos hheld] at hremove
      simp only [accounted, size, Stats.expire, Stats.miss] at hsize hremove ⊢
      omega
    · have hput := store.size_put key (e.accessedAt now)
      rw [if_pos hheld] at hput
      simp only [accounted, size, Stats.hit] at hsize hput ⊢
      omega

/-- What an operation brings in is held after it, or is counted, or is taken out. -/
theorem accounted_apply (p : Policy) (c : Contents K V) (action : Action K V) :
    (c.apply p action).contents.accounted + (c.turnover p action).removed +
        (c.turnover p action).cleared =
      c.accounted + (c.turnover p action).added := by
  cases action with
  | get key now => exact accounted_get p key now c
  | put key value now => exact accounted_insertAll p [(key, value, now)] c
  | putAll pairs => exact accounted_insertAll p pairs c
  | remove key =>
    have hremove : (c.store.remove key).2.size + (if c.holds key then 1 else 0) = c.store.size :=
      c.store.size_remove key
    simp only [apply, turnover, accounted, size]
    omega
  | clear =>
    simp only [apply, turnover, accounted, size, Store.clear, Store.size, List.length_nil]
    omega
  | trim now => exact (sheds_purge p now c).accounted_eq

theorem accounted_after (p : Policy) (actions : List (Action K V)) (c : Contents K V) :
    (c.after p actions).accounted + (c.turnoverAll p actions).removed +
        (c.turnoverAll p actions).cleared =
      c.accounted + (c.turnoverAll p actions).added := by
  induction actions generalizing c with
  | nil => rfl
  | cons action actions ih =>
    have hfirst := c.accounted_apply p action
    have hrest := ih (c.apply p action).contents
    change (((c.apply p action).contents.after p actions).accounted +
        ((c.turnover p action).removed + _) + ((c.turnover p action).cleared + _) =
      c.accounted + ((c.turnover p action).added + _))
    omega

/-- A load brings in one entry for each key of the snapshot. -/
theorem accounted_load (p : Policy) (now : Instant) (snapshot : List (Entry K V)) :
    (load p now snapshot).contents.accounted = (Entries.keys snapshot).dedup.length := by
  have hkeys : (Entries.keys (Entries.sorted p snapshot)).Perm (Entries.keys snapshot) :=
    (List.mergeSort_perm snapshot _).map _
  rw [(sheds_load p now snapshot).accounted_eq, ← hkeys.dedup.length_eq, ← Store.size_putAll_empty p.order]
  rfl

end Contents

/-! ## Lookups -/

namespace Occurrence
variable {K V : Type}

def isLookup : Occurrence K V → Bool
  | .performed (.get _ _) _ => true
  | _ => false

/-- A lookup gave a value. -/
def isHit : Occurrence K V → Bool
  | .performed (.get _ _) (some _) => true
  | _ => false

end Occurrence

namespace Journal
variable {K V : Type}

def lookups (j : Journal K V) : Nat := j.countP Occurrence.isLookup

def hits (j : Journal K V) : Nat := j.countP Occurrence.isHit

section
variable (i j : Journal K V)

@[simp] theorem lookups_append : (i ++ j).lookups = i.lookups + j.lookups := List.countP_append

@[simp] theorem hits_append : (i ++ j).hits = i.hits + j.hits := List.countP_append

end

end Journal

namespace Contents
variable {K V : Type}

/-- The lookups that were counted: those that gave a value, and all of them. -/
def lookups (c : Contents K V) : Nat × Nat := (c.stats.hits, c.stats.hits + c.stats.misses)

theorem Sheds.lookups_eq {c c' : Contents K V} (h : c.Sheds c') : c'.lookups = c.lookups := by
  obtain ⟨expired, evicted, -, hstats⟩ := h
  rw [lookups, hstats]
  rfl

variable [DecidableEq K]

theorem insert_lookups (p : Policy) (key : K) (value : V) (now : Instant) (c : Contents K V) :
    (c.insert p key value now).lookups = c.lookups :=
  (sheds_insert p key value now c).lookups_eq

/-- An operation counts as a lookup in the counters just if it is one, and as a hit if it gives a value. -/
theorem apply_lookups (p : Policy) (c : Contents K V) (action : Action K V) :
    let occs : Journal K V := [.performed action (c.apply p action).value]
    (c.apply p action).contents.lookups = c.lookups + (occs.hits, occs.lookups) := by
  cases action with
  | get key now =>
    simp only [apply, get]
    split
    · rfl
    · split
      · rfl
      · exact Prod.ext rfl (Nat.add_right_comm ..)
  | put key value now => exact insert_lookups p key value now c
  | putAll pairs => exact insertAll_keeps (insert_lookups p) pairs c
  | remove key => rfl
  | clear => rfl
  | trim now => exact (sheds_purge p now c).lookups_eq

end Contents

/-! ## Runs -/

namespace Manager
variable {K V : Type} [DecidableEq K]


/-- The counters tell how many lookups gave a value, and how many there were. -/
theorem Run.lookups_eq {p : Policy} {persistent : Bool} {m : Manager K V} {j : Journal K V}
    (hrun : Run (Manager.start p persistent) j m) : m.contents.lookups = (j.hits, j.lookups) := by
  refine hrun.induction (P := fun j m => m.contents.lookups = (j.hits, j.lookups)) rfl ?_
  intro j m m' occs hbefore ih hmoves
  rw [Journal.hits_append, Journal.lookups_append, ← Prod.mk_add_mk, ← ih]
  cases hmoves with
  | load snapshot now hphase =>
    rcases hbefore.loaded_once with hunloaded | ⟨_, _, -, hfollows⟩
    · rw [hunloaded.contents]
      exact (Contents.sheds_load m.policy now snapshot).lookups_eq
    · exact absurd hphase hfollows.loaded
  | act action => exact Contents.apply_lookups m.policy m.contents action
  | record last succeeded => cases succeeded <;> rfl
  | cancel | wake | elapse | mark | save | skip | finish | drain | announceDraining | announceClosed => rfl

/-- What the counters of a cache say about its entries and its lookups, after it was loaded with a snapshot. -/
structure Conserved (p : Policy) (snapshot : List (Entry K V)) (now : Instant) (j : Journal K V)
    (m : Manager K V) : Prop where
  /-- the operations, done one after another on what the load gave, leave what is held -/
  replayed : ((Contents.load p now snapshot).contents.after p j.actions).store = m.contents.store
  balance :
    let turnover := (Contents.load p now snapshot).contents.turnoverAll p j.actions
    (Entries.keys snapshot).dedup.length + turnover.added =
      m.contents.report.totalEntries + m.contents.report.evictions + m.contents.report.expirations +
        turnover.removed + turnover.cleared
  total : m.contents.report.totalEntries = m.contents.size
  hits : m.contents.report.hits = j.hits
  lookups : m.contents.report.hits + m.contents.report.misses = j.lookups

/-- However operations, saving and a shutdown interleave, no entry is lost from the counters, and none is
counted twice. -/
theorem run_conserves {p : Policy} {persistent : Bool} {m : Manager K V} {j : Journal K V}
    {snapshot : List (Entry K V)} {now : Instant} (hrun : Run (Manager.start p persistent) j m)
    (hload : (snapshot, now) ∈ j.loads) : Conserved p snapshot now j m := by
  have htraffic := hrun.traffic_eq hload
  have hlookups := Prod.mk.inj hrun.lookups_eq
  have hloaded := Contents.accounted_load p now snapshot
  have hbalance := Contents.accounted_after p j.actions (Contents.load p now snapshot).contents
  -- saving changes no counter of the balance, so the replayed operations tell what it is
  rw [← htraffic, hloaded] at hbalance
  exact ⟨(congrArg Contents.store htraffic).symm, hbalance.symm, rfl, hlookups.1, hlookups.2⟩

/-- One of the keys of the snapshot is there twice. The clock goes back before a batch is written; after it
an entry is found to be expired, one is removed, one is written anew, and what is left is given up when
memory is critical. -/
theorem run_conserves_of_expiry :
    ∃ (j : Journal Nat Nat) (m : Manager Nat Nat),
      Run (Manager.start smallPolicy false) j m ∧
        j.loads = [([⟨1, 10, 0, 5⟩, ⟨2, 20, 3, 7⟩, ⟨1, 11, 90, 80⟩], 6)] ∧
        m.contents.report.evictions = 2 ∧ m.contents.report.expirations = 1 ∧
        Conserved smallPolicy [⟨1, 10, 0, 5⟩, ⟨2, 20, 3, 7⟩, ⟨1, 11, 90, 80⟩] 6 j m := by
  have hsorted : Entries.sorted smallPolicy
      ([⟨1, 10, 0, 5⟩, ⟨2, 20, 3, 7⟩, ⟨1, 11, 90, 80⟩] : List (Entry Nat Nat)) = _ :=
    Entries.sorted_eq_of_perm .rfl (by decide) (by decide)
  have hstart : Run (Manager.start smallPolicy false : Manager Nat Nat) [] _ := Run.nil
  have hloaded := hstart.step (.load [⟨1, 10, 0, 5⟩, ⟨2, 20, 3, 7⟩, ⟨1, 11, 90, 80⟩] 6)
    (step?_load 6 rfl hsorted)
  have hwritten := hloaded.step (.act (.putAll [(3, 30, 2), (4, 40, -4)])) rfl
  have hread := hwritten.step (.act (.get 4 30)) rfl
  have hfound := hread.step (.act (.get 3 5)) rfl
  have hremoved := hfound.step (.act (.remove 3)) rfl
  have hrewritten := hremoved.step (.act (.put 1 12 31)) rfl
  have hrun := hrewritten.step (.act .clear) rfl
  exact ⟨_, _, hrun, rfl, rfl, rfl, run_conserves hrun (List.mem_singleton.mpr rfl)⟩

end Manager

end ExpiringCache
