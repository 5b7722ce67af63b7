import ExpiringCache.Manager

/-!
When the background work of a cache goes on, in whole milliseconds of a time of its own, which is not
the clock that stamps entries. Only loading, the wait between a signal and its snapshot, and saving take
time; every other step is taken at once.
-/
namespace ExpiringCache
set_option autoImplicit false

/-- A cache in time: how long a signal waits for its snapshot, and when the present wait ends. -/
structure Scheduled (K V : Type) where
  manager : Manager K V
  frequency : Nat
  due : Nat

/-- A step of the background work, without what the outside adds to it. -/
inductive Move where
  | load
  | wake
  | elapse
  | mark
  | copy
  | finish
  | record
  | drain
  | announce
deriving DecidableEq

namespace Scheduled
variable {K V : Type}

/-- The step that the background work takes at `now`, if it does not have to wait. A shutdown is looked
for before anything else. -/
def next (s : Scheduled K V) (now : Nat) : Option Move :=
  let m := s.manager
  match m.phase with
  | .loading => if s.due ≤ now then some .load else none
  | .idle =>
    if m.cancelled then some .drain
    else if m.persistent && m.unseen then some .wake
    else none
  | .debouncing =>
    if m.cancelled then some .drain
    else if s.due ≤ now then some .elapse
    else none
  | .marking => some .mark
  | .copying _ => some .copy
  | .saving _ _ => if s.due ≤ now then some .finish else none
  | .recording _ _ => some .record
  | .stopping | .finished => some .announce
  | .closed => none

/-- When the present wait ends by itself, if it does. -/
def alarm (s : Scheduled K V) : Option Nat :=
  match s.manager.phase with
  | .loading | .debouncing | .saving _ _ => some s.due
  | _ => none

/-- How many steps the background work can take before it needs a signal or a shutdown. -/
def rank (s : Scheduled K V) : Nat :=
  let m := s.manager
  let signal := if m.unseen then 6 else 0
  match m.phase with
  | .loading => 40
  | .idle => 12 + signal
  | .debouncing => 17 + signal
  | .marking => 16 + signal
  | .stopping => 5
  | .copying last => if last then 4 else 15 + signal
  | .saving last _ => if last then 3 else 14 + signal
  | .recording last _ => if last then 2 else 13 + signal
  | .finished => 1
  | .closed => 0

end Scheduled

end ExpiringCache
