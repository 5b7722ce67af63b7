import ExpiringCache.Contents

/-!
A cache and the background work beside it, as a machine. Each step is one that nothing can interrupt:
an operation, the arrival of the loaded snapshot, or one stretch of the work that saves snapshots. That
work waits for a signal that something changed, waits once more so that a burst of changes makes one
snapshot, marks every signal so far as seen, copies the entries, hands the copy over, and records how
that went. A shutdown ends either wait, but nothing else; one last snapshot is saved after it, and others
are told when that begins and when it is over.
-/
namespace ExpiringCache
set_option autoImplicit false

inductive Lifecycle where
  | initializing
  | ready
  | draining
  | closed
deriving DecidableEq

def Lifecycle.name : Lifecycle → String
  | .initializing => "Initializing"
  | .ready => "Ready"
  | .draining => "Draining"
  | .closed => "Closed"

/-- Where the background work stands. `last` tells the snapshot after a shutdown from those before. -/
inductive Phase (K V : Type) where
  | loading
  | idle
  | debouncing
  | marking
  /-- a shutdown has ended a wait, but nobody has been told -/
  | stopping
  | copying (last : Bool)
  | saving (last : Bool) (copy : List (Entry K V))
  | recording (last : Bool) (succeeded : Bool)
  /-- the last snapshot is done with, but nobody has been told -/
  | finished
  | closed

namespace Phase
variable {K V : Type}

def lifecycle : Phase K V → Lifecycle
  | .loading => .initializing
  | .idle | .debouncing | .marking | .stopping => .ready
  | .copying last | .saving last _ | .recording last _ => if last then .draining else .ready
  | .finished => .draining
  | .closed => .closed

def isLoading : Phase K V → Bool
  | .loading => true
  | _ => false

end Phase

/-- A cache: its limits, whether someone keeps its snapshots, what it holds, where the background work
stands, whether there are signals that it has not seen, and whether a shutdown was asked for. -/
structure Manager (K V : Type) where
  policy : Policy
  persistent : Bool
  contents : Contents K V
  phase : Phase K V := .loading
  unseen : Bool := false
  cancelled : Bool := false

/-- A step of a cache or of the work beside it. -/
inductive Step (K V : Type) where
  /-- the snapshot has arrived; the clock read `now` -/
  | load (snapshot : List (Entry K V)) (now : Instant)
  | act (action : Action K V)
  | cancel
  | wake
  | elapse
  | mark
  | copy
  | finish (succeeded : Bool)
  | record
  /-- a wait ends because of a shutdown -/
  | drain
  /-- others are told that the last snapshot is to be saved, or that it is done with -/
  | announce

namespace Manager
variable {K V : Type}

def start (policy : Policy) (persistent : Bool) : Manager K V :=
  { policy, persistent, contents := Contents.empty policy }

def lifecycle (m : Manager K V) : Lifecycle := m.phase.lifecycle

def accept (m : Manager K V) (o : Outcome K V) : Manager K V :=
  { m with contents := o.contents, unseen := m.unseen || o.signalled }

/-- Where the work goes on after a snapshot. -/
def afterSave (last : Bool) : Phase K V := if last then .finished else .idle

variable [DecidableEq K]

def perform (m : Manager K V) (action : Action K V) : Outcome K V := m.contents.apply m.policy action

/-- The cache after a step, if the step is possible now. -/
def step? (m : Manager K V) : Step K V → Option (Manager K V)
  | .load snapshot now =>
    match m.phase with
    | .loading => some { m.accept (Contents.load m.policy now snapshot) with phase := .idle }
    | _ => none
  | .act action =>
    match m.phase with
    | .loading => none
    | _ => some (m.accept (m.perform action))
  | .cancel => some { m with cancelled := true }
  | .wake =>
    match m.phase with
    | .idle =>
      if m.persistent && m.unseen && !m.cancelled then
        some { m with phase := .debouncing, unseen := false }
      else none
    | _ => none
  | .elapse =>
    match m.phase with
    | .debouncing => if m.cancelled then none else some { m with phase := .marking }
    | _ => none
  | .mark =>
    match m.phase with
    | .marking => some { m with phase := .copying false, unseen := false }
    | _ => none
  | .copy =>
    match m.phase with
    | .copying last =>
      if m.persistent then some { m with phase := .saving last m.contents.entries }
      else some { m with phase := afterSave last }
    | _ => none
  | .finish succeeded =>
    match m.phase with
    | .saving last _ => some { m with phase := .recording last succeeded }
    | _ => none
  | .record =>
    match m.phase with
    | .recording last succeeded =>
      some { m with
        contents := { m.contents with stats := m.contents.stats.save succeeded }
        phase := afterSave last }
    | _ => none
  | .drain =>
    match m.phase with
    | .idle | .debouncing => if m.cancelled then some { m with phase := .stopping } else none
    | _ => none
  | .announce =>
    match m.phase with
    | .stopping => some { m with phase := .copying true }
    | .finished => some { m with phase := .closed }
    | _ => none

/-- The cache after a step; as it was, if the step is not possible. -/
def step (m : Manager K V) (s : Step K V) : Manager K V := (m.step? s).getD m

end Manager

end ExpiringCache
