import ExpiringCache.Entry

/-!
The entries of a cache in the order in which it gives them up, the oldest at the front. In order of
access, reading or writing a key moves it to the back; in order of insertion only a new key goes there,
and writing to a key that is held leaves it in its place.
-/
namespace ExpiringCache
set_option autoImplicit false

namespace Store

inductive Order where
  | insertion
  | access
deriving DecidableEq

/-- A key and the entry under it. The entry may name another key. -/
abbrev Slot (K V : Type) := K × Entry K V

/-! ## Lists of slots -/

namespace Slots
variable {K V : Type}

theorem nodup_append {key : K} {e : Entry K V} {slots : List (Slot K V)}
    (h : (slots.map (·.1)).Nodup) (hk : key ∉ slots.map (·.1)) :
    ((slots ++ [(key, e)]).map (·.1)).Nodup := by
  rw [List.map_append, List.nodup_append]
  refine ⟨h, by simp, ?_⟩
  intro a ha b hb hab
  simp only [List.map_cons, List.map_nil, List.mem_singleton] at hb
  subst hb
  exact hk (hab ▸ ha)

variable [DecidableEq K]

def find? (key : K) (slots : List (Slot K V)) : Option (Entry K V) :=
  (slots.find? fun s => s.1 = key).map (·.2)

def erase (key : K) (slots : List (Slot K V)) : List (Slot K V) :=
  slots.filter fun s => s.1 ≠ key

/-- Puts the entry under a key at the back, and nowhere else. -/
def toBack (key : K) (e : Entry K V) (slots : List (Slot K V)) : List (Slot K V) :=
  erase key slots ++ [(key, e)]

/-- Puts the entry where the key stands, or at the back if it stands nowhere. -/
def inPlace (key : K) (e : Entry K V) (slots : List (Slot K V)) : List (Slot K V) :=
  if (slots.map (·.1)).contains key then slots.map fun s => if s.1 = key then (key, e) else s
  else slots ++ [(key, e)]

theorem nodup_erase (key : K) {slots : List (Slot K V)} (h : (slots.map (·.1)).Nodup) :
    ((erase key slots).map (·.1)).Nodup :=
  h.sublist ((List.filter_sublist).map _)

theorem not_mem_erase (key : K) (slots : List (Slot K V)) : key ∉ (erase key slots).map (·.1) := by
  simp [erase]

theorem nodup_toBack (key : K) (e : Entry K V) {slots : List (Slot K V)}
    (h : (slots.map (·.1)).Nodup) : ((toBack key e slots).map (·.1)).Nodup :=
  nodup_append (nodup_erase key h) (not_mem_erase key slots)

theorem keys_overwrite (key : K) (e : Entry K V) (slots : List (Slot K V)) :
    (slots.map fun s => if s.1 = key then (key, e) else s).map (·.1) = slots.map (·.1) := by
  rw [List.map_map]
  refine List.map_congr_left fun s _ => ?_
  by_cases h : s.1 = key <;> simp [h]

theorem nodup_inPlace (key : K) (e : Entry K V) {slots : List (Slot K V)}
    (h : (slots.map (·.1)).Nodup) : ((inPlace key e slots).map (·.1)).Nodup := by
  unfold inPlace
  split
  · rw [keys_overwrite]
    exact h
  · rename_i hk
    exact nodup_append h (by simpa using hk)

end Slots

end Store

/-! ## The store -/

/-- The slots from the oldest to the newest; a key has at most one. -/
structure Store (K V : Type) where
  order : Store.Order
  slots : List (Store.Slot K V) := []
  nodup : (slots.map (·.1)).Nodup := by simp

namespace Store
variable {K V : Type}

def empty (order : Order) : Store K V := { order }

def entries (s : Store K V) : List (Entry K V) := s.slots.map (·.2)

def keys (s : Store K V) : List K := s.slots.map (·.1)

def size (s : Store K V) : Nat := s.slots.length

def isEmpty (s : Store K V) : Bool := s.slots.isEmpty

def drop (s : Store K V) (count : Nat) : Store K V :=
  { s with
    slots := s.slots.drop count
    nodup := s.nodup.sublist ((List.drop_sublist count s.slots).map _) }

def clear (s : Store K V) : Store K V := { s with slots := [], nodup := by simp }

/-- Gives up the oldest slots, at most `count`, and says how many went. -/
def removeFront (s : Store K V) (count : Nat) : Nat × Store K V :=
  (min count s.size, s.drop count)

/-- How many elements at the front of a list a test accepts. The test is tried on each of them and on
the next one, if there is one, from the front on. -/
def countWhileM {α : Type} {m : Type → Type} [Monad m] (accept : α → m Bool) : List α → m Nat
  | [] => pure 0
  | a :: as => do
    if ← accept a then
      let n ← countWhileM accept as
      pure (n + 1)
    else pure 0

/-- Gives up the oldest slots as long as a test accepts their entries, and says how many went. -/
def removeFrontWhileM {m : Type → Type} [Monad m] (s : Store K V) (accept : Entry K V → m Bool) :
    m (Nat × Store K V) := do
  let n ← countWhileM accept s.entries
  pure (n, s.drop n)

/-- Gives up the oldest slots as long as their entries satisfy a predicate. -/
def removeFrontWhile (s : Store K V) (accept : Entry K V → Bool) : Nat × Store K V :=
  Id.run (s.removeFrontWhileM fun e => pure (accept e))

theorem countWhileM_id {α : Type} (accept : α → Bool) (l : List α) :
    Id.run (countWhileM (m := Id) (fun a => pure (accept a)) l) = (l.takeWhile accept).length := by
  induction l with
  | nil => rfl
  | cons a as ih =>
    cases h : accept a
    · simp [countWhileM, h]
    · simpa [countWhileM, h] using ih

theorem removeFrontWhile_eq (s : Store K V) (accept : Entry K V → Bool) :
    s.removeFrontWhile accept =
      ((s.entries.takeWhile accept).length, s.drop (s.entries.takeWhile accept).length) := by
  have h := countWhileM_id accept s.entries
  simp only [removeFrontWhile, removeFrontWhileM, Id.run, bind, pure] at h ⊢
  rw [h]

@[simp] theorem order_drop (s : Store K V) (count : Nat) : (s.drop count).order = s.order := rfl

variable [DecidableEq K]

def find? (s : Store K V) (key : K) : Option (Entry K V) := Slots.find? key s.slots

/-- Looks a key up; in order of access the key moves to the back. -/
def get (s : Store K V) (key : K) : Option (Entry K V) × Store K V :=
  match s.order, s.find? key with
  | .access, some e =>
    (some e, { s with
      slots := Slots.toBack key e s.slots
      nodup := Slots.nodup_toBack key e s.nodup })
  | _, found => (found, s)

def put (s : Store K V) (key : K) (e : Entry K V) : Store K V :=
  match s.order with
  | .access =>
    { s with
      slots := Slots.toBack key e s.slots
      nodup := Slots.nodup_toBack key e s.nodup }
  | .insertion =>
    { s with
      slots := Slots.inPlace key e s.slots
      nodup := Slots.nodup_inPlace key e s.nodup }

/-- Writes entries under the keys that they come with, one after another. -/
def putSlots (s : Store K V) (slots : List (Slot K V)) : Store K V :=
  slots.foldl (fun s slot => s.put slot.1 slot.2) s

/-- Writes entries under the keys that they name, one after another. -/
def putAll (s : Store K V) (entries : List (Entry K V)) : Store K V :=
  s.putSlots (entries.map fun e => (e.key, e))

/-- Takes a key out, and says what was under it. -/
def remove (s : Store K V) (key : K) : Option (Entry K V) × Store K V :=
  (s.find? key, { s with
    slots := Slots.erase key s.slots
    nodup := Slots.nodup_erase key s.nodup })

@[simp] theorem order_put (s : Store K V) (key : K) (e : Entry K V) : (s.put key e).order = s.order := by
  unfold put
  split <;> simp_all

@[simp] theorem order_remove (s : Store K V) (key : K) : (s.remove key).2.order = s.order := rfl

end Store

end ExpiringCache
