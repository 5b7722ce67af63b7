import ExpiringCache.Policy.Basic
import ExpiringCache.Stats

/-!
What a cache holds, and what each operation makes of it. An operation is given the readings of the clock
that it takes, so that its effect depends on nothing else; it returns the contents after it, the value
it found, and whether it signals that there is something to save.
-/
namespace ExpiringCache
set_option autoImplicit false

structure Contents (K V : Type) where
  store : Store K V
  stats : Stats := {}

/-- An operation with the readings of the clock that it takes. -/
inductive Action (K V : Type) where
  | get (key : K) (now : Instant)
  | put (key : K) (value : V) (now : Instant)
  /-- writes pairs one after another, each at a reading of its own -/
  | putAll (pairs : List (K × V × Instant))
  | remove (key : K)
  | clear
  /-- gives up what has expired, as a warning that memory is low does -/
  | trim (now : Instant)

structure Outcome (K V : Type) where
  contents : Contents K V
  value : Option V := none
  signalled : Bool := true

namespace Contents
variable {K V : Type}

def empty (p : Policy) : Contents K V := { store := Store.empty p.order }

def entries (c : Contents K V) : List (Entry K V) := c.store.entries

def size (c : Contents K V) : Nat := c.store.size

def report (c : Contents K V) : Stats := c.stats.withTotal c.size

/-! ## Limits -/

/-- Gives up the expired entries at the front, and says how many went. -/
def purge (p : Policy) (now : Instant) (c : Contents K V) : Nat × Contents K V :=
  match p.lifetime with
  | none => (0, c)
  | some l =>
    let (count, store) := c.store.removeFrontWhile fun e => l.isExpired e now
    (count, { store, stats := c.stats.expire count })

/-- Gives up the oldest entries beyond `limit`, and says how many went. -/
def evict (limit : Nat) (c : Contents K V) : Nat × Contents K V :=
  let (count, store) := c.store.removeFront (c.size - limit)
  (count, { store, stats := c.stats.evict count })

/-- Keeps the limit on the size, by giving up expired entries before live ones. Says how many went. -/
def trimToSize (p : Policy) (now : Instant) (c : Contents K V) : Nat × Contents K V :=
  match p.maxSize with
  | none => (0, c)
  | some limit =>
    if c.size ≤ limit then (0, c)
    else
      let (expired, c) := c.purge p now
      let (evicted, c) := c.evict limit
      (expired + evicted, c)

/-! ## Operations -/

variable [DecidableEq K]

/-- Writes a fresh entry for a key to the back, in place of an earlier one. -/
def insert (p : Policy) (key : K) (value : V) (now : Instant) (c : Contents K V) : Contents K V :=
  let (_, store) := c.store.remove key
  let c := { c with store := store.put key (Entry.fresh key value now) }
  (c.trimToSize p now).2

/-- Looks a key up. A hit prolongs the life of its entry under a limit on idling; an expired entry is
given up. -/
def get (p : Policy) (key : K) (now : Instant) (c : Contents K V) : Outcome K V :=
  match c.store.get key with
  | (none, store) => { contents := ⟨store, c.stats.miss⟩, signalled := false }
  | (some e, store) =>
    if p.isExpired e now then
      { contents := ⟨(store.remove key).2, (c.stats.expire 1).miss⟩ }
    else
      { contents := ⟨store.put key (e.accessedAt now), c.stats.hit⟩, value := some e.value }

def apply (p : Policy) (c : Contents K V) : Action K V → Outcome K V
  | .get key now => c.get p key now
  | .put key value now => { contents := c.insert p key value now }
  | .putAll pairs =>
    { contents := pairs.foldl (fun c (key, value, now) => c.insert p key value now) c }
  | .remove key => { contents := { c with store := (c.store.remove key).2 } }
  | .clear => { contents := { c with store := c.store.clear } }
  | .trim now => { contents := (c.purge p now).2 }

/-- The contents that a snapshot gives, loaded at `now`: its entries in the policy's order, cut down to
the limit on the size. Signals if that made any entry go. -/
def load (p : Policy) (now : Instant) (snapshot : List (Entry K V)) : Outcome K V :=
  let sorted := snapshot.mergeSort fun a b => p.sortKey a ≤ p.sortKey b
  let c : Contents K V := { store := (Store.empty p.order).putAll sorted }
  let (removed, c) := c.trimToSize p now
  { contents := c, signalled := 0 < removed }

end Contents

/-! ## Requests -/

/-- An operation as it is asked for, before the clock has been read. -/
inductive Request (K V : Type) where
  | get (key : K)
  | put (key : K) (value : V)
  | putAll (pairs : List (K × V))
  | remove (key : K)
  | clear
  | trim

namespace Request
variable {K V : Type}

def stampPairs {m : Type → Type} [Monad m] (read : m Instant) :
    List (K × V) → m (List (K × V × Instant))
  | [] => pure []
  | (key, value) :: pairs => do
    let now ← read
    let rest ← stampPairs read pairs
    pure ((key, value, now) :: rest)

/-- Takes the readings of the clock that the operation needs. -/
def stamp {m : Type → Type} [Monad m] (read : m Instant) : Request K V → m (Action K V)
  | .get key => do return .get key (← read)
  | .put key value => do return .put key value (← read)
  | .putAll pairs => do return .putAll (← stampPairs read pairs)
  | .remove key => pure (.remove key)
  | .clear => pure .clear
  | .trim => do return .trim (← read)

end Request

end ExpiringCache
