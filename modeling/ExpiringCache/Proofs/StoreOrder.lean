import ExpiringCache.Proofs.StoreSlots

/-!
What a store holds, and in which order, told from what was done to it. A key is held with the entry that was
written last, whatever key that entry names. In order of access the keys stand as they were last written or
found, in order of insertion as each last came in. What is given up goes from the front: a number of slots, or
those that a test accepts, which is tried on each of them once and on the next one.
-/
namespace ExpiringCache
set_option autoImplicit false

namespace Store

/-! ## What was done -/

/-- What happened to slots. -/
inductive Event (K V : Type) where
  /-- an entry was written, `arrived` if its key was not held before -/
  | wrote (slot : Slot K V) (arrived : Bool)
  | looked (key : K) (found : Bool)
  | removed (key : K)
  | cleared
  | gaveUp (slots : List (Slot K V))

namespace Event
variable {K V : Type}

/-- No slot that the key had before stays. -/
def Ends (key : K) : Event K V → Prop
  | .wrote slot _ => slot.1 = key
  | .looked _ _ => False
  | .removed other => other = key
  | .cleared => True
  | .gaveUp slots => key ∈ slots.map (·.1)

/-- The key that comes to be the newest. -/
def touched? : Order → Event K V → Option K
  | .access, .wrote slot _ => some slot.1
  | .access, .looked key found => if found then some key else none
  | .insertion, .wrote slot arrived => if arrived then some slot.1 else none
  | _, _ => none

end Event

abbrev Log (K V : Type) := List (Event K V)

namespace Log
variable {K V : Type} {log : Log K V} {event : Event K V} {slot : Slot K V} {order : Order} {key : K}

/-- The keys in the order in which they were touched, as often as they were. -/
def touches (order : Order) (log : Log K V) : List K := log.filterMap (Event.touched? order)

/-- The slot was written, and nothing has ended its stay since. -/
def Stands (log : Log K V) (slot : Slot K V) : Prop :=
  ∃ before arrived since, log = before ++ .wrote slot arrived :: since ∧ ∀ event ∈ since, ¬ event.Ends slot.1

theorem stands_concat :
    Stands (log ++ [event]) slot ↔
      (∃ arrived, event = .wrote slot arrived) ∨ log.Stands slot ∧ ¬ event.Ends slot.1 := by
  constructor
  · rintro ⟨before, arrived, since, hlog, hsince⟩
    rcases split_concat hlog with ⟨-, -, hevent⟩ | ⟨earlier, rfl, hearlier⟩
    · exact .inl ⟨arrived, hevent.symm⟩
    · exact .inr ⟨⟨before, arrived, earlier, hearlier, fun event h => hsince event (by simp [h])⟩,
        hsince event (by simp)⟩
  · rintro (⟨arrived, rfl⟩ | ⟨⟨before, arrived, since, rfl, hsince⟩, hends⟩)
    · exact ⟨log, arrived, [], rfl, by simp⟩
    · refine ⟨before, arrived, since ++ [event], by simp, fun other hother => ?_⟩
      rcases List.mem_append.mp hother with hother | hother
      · exact hsince other hother
      · rw [List.mem_singleton.mp hother]
        exact hends

/-- What an event says of the store agrees with what was done before. -/
def Fits (before : Log K V) : Event K V → Prop
  | .wrote slot arrived => arrived = true ↔ ¬ ∃ e, before.Stands (slot.1, e)
  | .looked key found => found = true ↔ ∃ e, before.Stands (key, e)
  | .gaveUp slots => ∀ slot ∈ slots, before.Stands slot
  | .removed _ | .cleared => True

def Truthful (log : Log K V) : Prop :=
  ∀ (before : Log K V) event since, log = before ++ event :: since → before.Fits event

theorem truthful_nil : Truthful ([] : Log K V) := by
  intro before event since h
  cases before <;> cases h

theorem Truthful.concat (h : log.Truthful) (hevent : log.Fits event) : Truthful (log ++ [event]) := by
  intro before other since hlog
  rcases split_concat hlog with ⟨-, rfl, rfl⟩ | ⟨earlier, -, hearlier⟩
  · exact hevent
  · exact h before other earlier hearlier

theorem touches_touched (h : event.touched? order = some key) :
    touches order (log ++ [event]) = log.touches order ++ [key] := by
  simp [touches, h]

theorem touches_untouched (h : event.touched? order = none) :
    touches order (log ++ [event]) = log.touches order := by
  simp [touches, h]

end Log

/-! ## What is held -/

section
variable {K V : Type} [DecidableEq K] {log : Log K V} {s : Store K V}

/-- The log tells which slots there are, and in which order their keys stand: `dedup` keeps of each key the last
touch. -/
structure Told (log : Log K V) (s : Store K V) : Prop where
  truthful : log.Truthful
  held : ∀ slot, slot ∈ s.slots ↔ log.Stands slot
  order : s.keys.Sublist (log.touches s.order).dedup

theorem told_empty (order : Order) : Told [] (Store.empty order : Store K V) where
  truthful := Log.truthful_nil
  held slot := by simp [empty, Log.Stands]
  order := List.nil_sublist _

namespace Told

theorem find?_eq_some (h : Told log s) {key : K} {e : Entry K V} :
    s.find? key = some e ↔ log.Stands (key, e) := find?_eq_some_iff.trans (h.held (key, e))

theorem isSome_find? (h : Told log s) (key : K) :
    (s.find? key).isSome = true ↔ ∃ e, log.Stands (key, e) := by
  simp only [Option.isSome_iff_exists, h.find?_eq_some]

theorem cleared (h : Told log s) : Told (log ++ [.cleared]) s.clear where
  truthful := h.truthful.concat trivial
  held slot := by
    rw [Log.stands_concat]
    simp [clear, Event.Ends]
  order := List.nil_sublist _

/-- Keys come to the back when they are touched last. -/
theorem touch {keys : List K} {order : Order} (h : keys.Sublist (log.touches order).dedup) {event : Event K V}
    {key : K} (htouched : event.touched? order = some key) :
    (keys.filter (· ≠ key) ++ [key]).Sublist (Log.touches order (log ++ [event])).dedup := by
  rw [Log.touches_touched htouched, dedup_concat]
  exact (h.filter _).append (List.Sublist.refl _)

theorem wrote (h : Told log s) (key : K) (e : Entry K V) :
    Told (log ++ [.wrote (key, e) (s.find? key).isNone]) (s.put key e) where
  truthful := by
    refine h.truthful.concat ?_
    rw [Log.Fits, ← h.isSome_find? key]
    simp
  held slot := by
    rw [mem_slots_put, h.held, Log.stands_concat]
    simp [Event.Ends, eq_comm]
  order := by
    have hnone : (s.find? key).isNone = decide (key ∉ s.keys) := by
      rw [Bool.eq_iff_iff, Option.isNone_iff_eq_none, find?_eq_none_iff, decide_eq_true_iff]
    rw [order_put]
    cases horder : s.order with
    | access =>
      rw [keys_put_access horder]
      exact touch (horder ▸ h.order) rfl
    | insertion =>
      have hbefore := horder ▸ h.order
      rw [keys_put_insertion horder]
      by_cases hheld : key ∈ s.keys
      · rw [if_pos hheld, Log.touches_untouched (by simp [Event.touched?, hnone, hheld])]
        exact hbefore
      · have hother : s.keys.filter (· ≠ key) = s.keys :=
          List.filter_eq_self.mpr fun other hmem => by
            simpa using fun hsame : other = key => hheld (hsame ▸ hmem)
        rw [if_neg hheld, ← hother]
        exact touch hbefore (by simp [Event.touched?, hnone, hheld])

theorem looked (h : Told log s) (key : K) :
    Told (log ++ [.looked key (s.find? key).isSome]) (s.get key).2 where
  truthful := h.truthful.concat (h.isSome_find? key)
  held slot := by
    rw [mem_slots_get, h.held, Log.stands_concat]
    simp [Event.Ends]
  order := by
    rw [order_get]
    cases hfind : s.find? key with
    | none =>
      rw [get_of_absent hfind, Log.touches_untouched (by cases s.order <;> rfl)]
      exact h.order
    | some e =>
      cases horder : s.order with
      | insertion =>
        rw [get_insertion horder, Log.touches_untouched rfl]
        exact horder ▸ h.order
      | access =>
        rw [get_access horder hfind, keys_put_access horder]
        exact touch (horder ▸ h.order) rfl

theorem removed (h : Told log s) (key : K) : Told (log ++ [.removed key]) (s.remove key).2 where
  truthful := h.truthful.concat trivial
  held slot := by
    rw [mem_slots_remove, h.held, Log.stands_concat]
    simp [Event.Ends, eq_comm]
  order := by
    rw [order_remove, keys_remove, Log.touches_untouched (by cases s.order <;> rfl)]
    exact List.filter_sublist.trans h.order

theorem gaveUp (h : Told log s) (count : Nat) :
    Told (log ++ [.gaveUp (s.slots.take count)]) (s.drop count) where
  truthful := h.truthful.concat fun slot hslot => (h.held slot).mp (List.mem_of_mem_take hslot)
  held slot := by
    rw [mem_slots_drop, h.held, Log.stands_concat]
    simp [Event.Ends]
  order := by
    rw [order_drop, keys_drop, Log.touches_untouched (by cases s.order <;> rfl)]
    exact (List.drop_sublist count _).trans h.order

end Told

end

/-! ## Giving up what a test accepts -/

section
variable {σ α K V : Type}

/-- The test, with a record of what it was tried on and of its answers. -/
def recorded (accept : α → StateM σ Bool) (a : α) : StateM (List (α × Bool) × σ) Bool := fun (calls, memory) =>
  match accept a memory with
  | (answer, memory) => (answer, calls ++ [(a, answer)], memory)

/-- What a test is tried on when `count` elements are accepted: each of these, and the next one. -/
def tried (count : Nat) (l : List α) : List (α × Bool) :=
  (l.take count).map (·, true) ++ (l.drop count).head?.toList.map (·, false)

theorem pure_apply (a : α) (memory : σ) : (pure a : StateM σ α) memory = (a, memory) := rfl

theorem countWhileM_recorded (accept : α → StateM σ Bool) (l : List α) (calls : List (α × Bool)) (memory : σ) :
    ∃ count memory', count ≤ l.length ∧ countWhileM accept l memory = (count, memory') ∧
      countWhileM (recorded accept) l (calls, memory) = (count, calls ++ tried count l, memory') := by
  induction l generalizing calls memory with
  | nil => exact ⟨0, memory, Nat.le_refl _, rfl, by simp [countWhileM, tried, pure_apply]⟩
  | cons a as ih =>
    rcases haccept : accept a memory with ⟨answer, memory₁⟩
    cases answer with
    | false =>
      refine ⟨0, memory₁, Nat.zero_le _, ?_, ?_⟩
      · simp [countWhileM, bind, StateT.bind, haccept, pure_apply]
      · simp [countWhileM, bind, StateT.bind, recorded, haccept, pure_apply, tried]
    | true =>
      obtain ⟨count, memory', hle, hplain, hrecorded⟩ := ih (calls ++ [(a, true)]) memory₁
      refine ⟨count + 1, memory', Nat.succ_le_succ hle, ?_, ?_⟩
      · simp [countWhileM, bind, StateT.bind, haccept, hplain, pure_apply]
      · simp [countWhileM, bind, StateT.bind, recorded, haccept, hrecorded, pure_apply, tried]

/-- Giving up the slots that a test accepts: how many went, and what the test was tried on. -/
def GivesUpWhile (s : Store K V) (accept : Entry K V → StateM σ Bool) (memory : σ) : Prop :=
  ∃ count memory', count ≤ s.size ∧
    s.removeFrontWhileM accept memory = ((count, s.drop count), memory') ∧
    s.removeFrontWhileM (recorded accept) ([], memory) =
      ((count, s.drop count), tried count s.entries, memory')

theorem givesUpWhile (s : Store K V) (accept : Entry K V → StateM σ Bool) (memory : σ) :
    s.GivesUpWhile accept memory := by
  obtain ⟨count, memory', hle, hplain, hrecorded⟩ := countWhileM_recorded accept s.entries [] memory
  have hsize : s.entries.length = s.size := List.length_map _
  refine ⟨count, memory', hsize ▸ hle, ?_, ?_⟩
  · simp [removeFrontWhileM, bind, StateT.bind, hplain, pure_apply]
  · simp [removeFrontWhileM, bind, StateT.bind, hrecorded, pure_apply]

end

/-! ## One operation after another -/

/-- What can be done to a store. The tests of a run have one memory between them. -/
inductive Operation (σ K V : Type) where
  | get (key : K)
  | put (key : K) (e : Entry K V)
  | putAll (slots : List (Slot K V))
  | remove (key : K)
  | clear
  | removeFront (count : Nat)
  | removeFrontWhile (accept : Entry K V → StateM σ Bool)

/-- A store in use, with the log of what was done to it and the memory of the tests. -/
structure Session (σ K V : Type) where
  store : Store K V
  memory : σ
  log : Log K V := []

section
variable {σ K V : Type} [DecidableEq K]

/-- What is logged when entries are written one after another. -/
def writings (s : Store K V) : List (Slot K V) → Log K V
  | [] => []
  | slot :: rest => .wrote slot (s.find? slot.1).isNone :: writings (s.put slot.1 slot.2) rest

theorem Told.wroteAll {log : Log K V} {s : Store K V} (h : Told log s) (slots : List (Slot K V)) :
    Told (log ++ s.writings slots) (s.putSlots slots) := by
  induction slots generalizing log s with
  | nil => simpa [writings, putSlots] using h
  | cons slot rest ih =>
    have hrest := ih (h.wrote slot.1 slot.2)
    rw [List.append_assoc] at hrest
    exact hrest

theorem order_putSlots (s : Store K V) (slots : List (Slot K V)) : (s.putSlots slots).order = s.order := by
  induction slots generalizing s with
  | nil => rfl
  | cons slot rest ih => exact (ih (s.put slot.1 slot.2)).trans (order_put s slot.1 slot.2)

namespace Session

def start (order : Order) (memory : σ) : Session σ K V := ⟨Store.empty order, memory, []⟩

def perform (x : Session σ K V) : Operation σ K V → Session σ K V
  | .get key => ⟨(x.store.get key).2, x.memory, x.log ++ [.looked key (x.store.get key).1.isSome]⟩
  | .put key e => ⟨x.store.put key e, x.memory, x.log ++ [.wrote (key, e) (x.store.find? key).isNone]⟩
  | .putAll slots => ⟨x.store.putSlots slots, x.memory, x.log ++ x.store.writings slots⟩
  | .remove key => ⟨(x.store.remove key).2, x.memory, x.log ++ [.removed key]⟩
  | .clear => ⟨x.store.clear, x.memory, x.log ++ [.cleared]⟩
  | .removeFront count =>
    match x.store.removeFront count with
    | (count, store) => ⟨store, x.memory, x.log ++ [.gaveUp (x.store.slots.take count)]⟩
  | .removeFrontWhile accept =>
    match x.store.removeFrontWhileM accept x.memory with
    | ((count, store), memory) => ⟨store, memory, x.log ++ [.gaveUp (x.store.slots.take count)]⟩

def run (x : Session σ K V) (operations : List (Operation σ K V)) : Session σ K V := operations.foldl perform x

theorem order_perform (x : Session σ K V) (operation : Operation σ K V) :
    (x.perform operation).store.order = x.store.order := by
  cases operation with
  | get key => exact order_get x.store key
  | put key e => exact order_put x.store key e
  | putAll slots => exact order_putSlots x.store slots
  | remove key => rfl
  | clear => rfl
  | removeFront count => rfl
  | removeFrontWhile accept =>
    obtain ⟨count, memory', -, hcount, -⟩ := givesUpWhile x.store accept x.memory
    simp only [perform, hcount, order_drop]

theorem told_perform {x : Session σ K V} (h : Told x.log x.store) (operation : Operation σ K V) :
    Told (x.perform operation).log (x.perform operation).store := by
  cases operation with
  | get key =>
    simp only [perform, fst_get]
    exact h.looked key
  | put key e => exact h.wrote key e
  | putAll slots => exact h.wroteAll slots
  | remove key => exact h.removed key
  | clear => exact h.cleared
  | removeFront count =>
    simp only [perform, removeFront, ← drop_min count x.store]
    exact h.gaveUp (min count x.store.size)
  | removeFrontWhile accept =>
    obtain ⟨count, memory', -, hcount, -⟩ := givesUpWhile x.store accept x.memory
    simp only [perform, hcount]
    exact h.gaveUp count

end Session

/-- What is true of a store at any time. -/
structure Orderly (order : Order) (log : Log K V) (s : Store K V) : Prop where
  truthful : log.Truthful
  nodup : s.keys.Nodup
  held : ∀ key e, s.find? key = some e ↔ log.Stands (key, e)
  get : ∀ key, (s.get key).1 = s.find? key
  /-- the keys stand in the order of their last touches, and the entries in the order of the keys -/
  keys : s.keys.Sublist (log.touches order).dedup
  entries : s.entries = s.keys.filterMap s.find?
  removeFront : ∀ count, s.removeFront count = (min count s.size, s.drop (min count s.size))
  removeFrontWhile : ∀ (σ : Type) (accept : Entry K V → StateM σ Bool) (memory : σ),
    s.GivesUpWhile accept memory

theorem Told.orderly {log : Log K V} {s : Store K V} (h : Told log s) : Orderly s.order log s where
  truthful := h.truthful
  nodup := s.nodup
  held key e := h.find?_eq_some
  get := fst_get s
  keys := h.order
  entries := entries_eq_filterMap s
  removeFront count := by rw [drop_min, Store.removeFront]
  removeFrontWhile _ := s.givesUpWhile

namespace Session

theorem told_run {x : Session σ K V} (h : Told x.log x.store) (operations : List (Operation σ K V)) :
    Told (x.run operations).log (x.run operations).store := by
  induction operations generalizing x with
  | nil => exact h
  | cons operation operations ih => exact ih (told_perform h operation)

theorem order_run (x : Session σ K V) (operations : List (Operation σ K V)) :
    (x.run operations).store.order = x.store.order := by
  induction operations generalizing x with
  | nil => rfl
  | cons operation operations ih => exact (ih (x.perform operation)).trans (order_perform x operation)

/-- Whatever is done to an empty store, and whatever keys the entries name, the log tells what it holds and in
which order, and what is given up goes from the front. -/
theorem run_orderly (order : Order) (memory : σ) (operations : List (Operation σ K V)) :
    Orderly order ((start order memory).run operations).log ((start order memory).run operations).store := by
  have htold := told_run (x := start order memory) (told_empty order) operations
  have horder : ((start order memory).run operations).store.order = order := order_run _ operations
  have horderly := htold.orderly
  rw [horder] at horderly
  exact horderly

/-- A key that went and came again is the newest, under whatever name its entry goes. -/
example : ((start .insertion ()).run [.put 1 ⟨9, 10, 0, 0⟩, .put 2 ⟨2, 20, 1, 1⟩, .put 1 ⟨9, 11, 2, 2⟩,
    .get 1, .remove 1, .put 1 ⟨2, 12, 3, 3⟩] : Session Unit Nat Nat).store.slots =
      [(2, ⟨2, 20, 1, 1⟩), (1, ⟨2, 12, 3, 3⟩)] := rfl

end Session

end

end Store

end ExpiringCache
