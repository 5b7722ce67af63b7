import ExpiringCache.Contents

/-!
Warnings that memory is running out. A source of warnings has at most one listener; a cache that listens
gives up what has expired when memory is low, and everything when it is critical. A cache stops listening
once it is shut down: the source then has no listener, whoever that was.
-/
namespace ExpiringCache
set_option autoImplicit false

inductive MemoryLevel where
  | low
  | critical
deriving DecidableEq

namespace MemoryLevel
variable {K V : Type}

def name : MemoryLevel → String
  | .low => "low"
  | .critical => "critical"

def request : MemoryLevel → Request K V
  | .low => .trim
  | .critical => .clear

end MemoryLevel

/-- A source of warnings, with the listener that they go to. -/
structure Notifier (L : Type) where
  listener : Option L := none

namespace Notifier
variable {L : Type}

def attach (n : Notifier L) (listener : L) : Notifier L := { n with listener := some listener }

def detach (n : Notifier L) : Notifier L := { n with listener := none }

def isAttached (n : Notifier L) : Bool := n.listener.isSome

/-- Who gets a warning at this level. -/
def signal (n : Notifier L) (level : MemoryLevel) : Option (L × MemoryLevel) :=
  n.listener.map fun l => (l, level)

def text (n : Notifier L) : String :=
  "ManualMemoryLevelNotifier \x7b attached: " ++ (if n.isAttached then "true" else "false") ++ " \x7d"

end Notifier

/-- A source of warnings for caches, told apart by number, and the caches that have yet to stop
listening to it. -/
structure Pressure where
  notifier : Notifier Nat := {}
  waiting : List Nat := []

namespace Pressure

def decorate (p : Pressure) (cache : Nat) : Pressure :=
  { notifier := p.notifier.attach cache, waiting := p.waiting ++ [cache] }

/-- A cache that was shut down stops listening. -/
def release (p : Pressure) (cache : Nat) : Pressure :=
  if p.waiting.contains cache then
    { notifier := p.notifier.detach, waiting := p.waiting.erase cache }
  else p

def releaseAll (p : Pressure) (isShutDown : Nat → Bool) : Pressure :=
  (p.waiting.filter isShutDown).foldl release p

end Pressure

end ExpiringCache
