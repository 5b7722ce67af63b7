import ExpiringCache.Duration
import ExpiringCache.Entry
import ExpiringCache.Error
import ExpiringCache.Store.Basic

/-!
The limits of a cache: how many entries it holds and how long one lives, counted either from when it
was written or from when it was last written or read. An entry has expired once its limit is exceeded;
when the limit is just reached it still lives.
-/
namespace ExpiringCache
set_option autoImplicit false

inductive Lifetime where
  | timeToLive (limit : Duration)
  | timeToIdle (limit : Duration)
deriving DecidableEq

namespace Lifetime
variable {K V : Type}

def kind : Lifetime → LifetimeKind
  | .timeToLive _ => .timeToLive
  | .timeToIdle _ => .timeToIdle

def limit : Lifetime → Duration
  | .timeToLive d => d
  | .timeToIdle d => d

/-- The instant from which the life of an entry counts. -/
def since (l : Lifetime) (e : Entry K V) : Instant :=
  match l with
  | .timeToLive _ => e.created
  | .timeToIdle _ => e.accessed

def isExpired (l : Lifetime) (e : Entry K V) (now : Instant) : Bool :=
  (l.since e).after l.limit.toSpan < now

end Lifetime

/-- The shortest limit on life: instants have no finer resolution. -/
def shortestLifetime : Duration := .ofMillis 1

/-- The limits of a cache. A limit on the size is not zero, one on life not below a millisecond. -/
structure Policy where
  maxSize : Option Nat := none
  lifetime : Option Lifetime := none
  maxSize_pos : ∀ n ∈ maxSize, 0 < n := by simp
  shortest_le : ∀ l ∈ lifetime, shortestLifetime.nanos ≤ l.limit.nanos := by simp
deriving DecidableEq

namespace Policy
variable {K V : Type}

def unlimited : Policy := {}

instance : Inhabited Policy := ⟨unlimited⟩

def timeToLive (p : Policy) : Option Duration :=
  match p.lifetime with
  | some (.timeToLive d) => some d
  | _ => none

def timeToIdle (p : Policy) : Option Duration :=
  match p.lifetime with
  | some (.timeToIdle d) => some d
  | _ => none

/-- The order that the store keeps: by use if use prolongs life, else by writing. -/
def order (p : Policy) : Store.Order :=
  if p.timeToIdle.isSome then .access else .insertion

/-- The instant by which the entries of a snapshot are put in order. -/
def sortKey (p : Policy) (e : Entry K V) : Instant :=
  if p.timeToIdle.isSome then e.accessed else e.created

def isExpired (p : Policy) (e : Entry K V) (now : Instant) : Bool :=
  match p.lifetime with
  | some l => l.isExpired e now
  | none => false

end Policy

end ExpiringCache
