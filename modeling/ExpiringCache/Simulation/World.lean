import ExpiringCache.Clock
import ExpiringCache.Pressure
import ExpiringCache.Schedule
import ExpiringCache.Setup
import ExpiringCache.Simulation.Backend

/-!
Caches, keepers of snapshots and sources of warnings side by side, in a time that passes only when
someone waits. Whatever can happen without time passing happens before anything else is looked at. Work
that is ready stands in a queue and is done in turn, each piece until it has to wait; pieces that become
ready at the same moment line up in the order in which their waits began.
-/
namespace ExpiringCache.Simulation
set_option autoImplicit false

inductive Happening where
  | read
  /-- the number of entries, if there were any to read, or a failure -/
  | readEnd (result : Option (Option Nat))
  | save (entries : Entries)
  | saveEnd (succeeded : Bool)

structure Event where
  time : Nat
  backend : Nat
  happening : Happening

/-- A way to ask for a shutdown: one that caches share under a name, or a cache's own. -/
inductive Token where
  | shared (name : String)
  | own (cache : Nat)
deriving DecidableEq

structure Worker where
  scheduled : Scheduled String String
  backend : Option Nat
  token : Token
  wallClock : Bool
  /-- when the present wait of its background work began, compared with the waits of others -/
  turn : Nat
  /-- warnings that came while the snapshot was being loaded -/
  requests : List (Request String String) := []
  response : Bool := true

namespace Worker

def manager (w : Worker) : Manager String String := w.scheduled.manager

def withManager (w : Worker) (m : Manager String String) : Worker :=
  { w with scheduled := { w.scheduled with manager := m } }

def isLoading (w : Worker) : Bool := w.manager.phase.isLoading

end Worker

inductive Job where
  | load (cache : Nat)
  | save (cache : Nat)
  | request (cache : Nat) (request : Request String String)

/-- The background work that a cache, which has this number, goes on with. -/
def Worker.job (w : Worker) (cache : Nat) : Job := if w.isLoading then .load cache else .save cache

/-- What a user holds of a cache; a plain one serves reads and writes only. -/
structure Handle where
  cache : Nat
  isPlain : Bool
  dropped : Bool := false

/-- How long a wait takes in simulated time: thirty years at most. Only who waits for something to happen sets
a limit of any length. -/
def waitTime (duration : Nat) : Nat := min duration (30 * 365 * 24 * 60 * 60 * 1000)

structure World where
  time : Nat := 0
  clock : Clock
  wall : Instant
  backends : List Backend := []
  pressures : List Pressure := []
  workers : List Worker := []
  handles : List Handle := []
  current : Nat := 0
  cancelled : List String := []
  turns : Nat := 0
  /-- the work that is ready, the next piece first -/
  queue : List Job := []
  /-- what happened since the last look, the latest first -/
  events : List Event := []

namespace World

/-! ## Parts -/

def updateWorker (w : World) (i : Nat) (f : Worker → Worker) : World :=
  { w with workers := w.workers.modify i f }

def updateBackend (w : World) (b : Nat) (f : Backend → Backend) : World :=
  { w with backends := w.backends.modify b f }

def note (w : World) (backend : Nat) (happening : Happening) : World :=
  { w with events := ⟨w.time, backend, happening⟩ :: w.events }

def setDue (w : World) (i duration : Nat) : World :=
  w.updateWorker i fun x =>
    { x with scheduled := { x.scheduled with due := w.time + duration } }

def beginWait (w : World) (i : Nat) : World :=
  let w := w.updateWorker i fun x => { x with turn := w.turns }
  { w with turns := w.turns + 1 }

def readClock (wallClock : Bool) : StateM World Instant := fun w =>
  if wallClock then (w.wall, w)
  else
    let (now, clock) := w.clock.read
    (now, { w with clock })

def perform (w : World) (i : Nat) (r : Request String String) : Option String × World :=
  match w.workers[i]? with
  | none => (none, w)
  | some x =>
    let (action, w) := (r.stamp (readClock x.wallClock)).run w
    ((x.manager.perform action).value,
      w.updateWorker i fun x => x.withManager (x.manager.step (.act action)))

/-! ## Background work -/

def loadSnapshot (w : World) (backend : Option Nat) : Entries × World :=
  match backend with
  | none => ([], w)
  | some b =>
    match w.backends[b]? with
    | none => ([], w)
    | some keeper =>
      let (result, keeper) := keeper.read
      let w := w.updateBackend b fun _ => keeper
      ((result.bind id).getD [], w.note b (.readEnd (result.map fun data => data.map (·.length))))

def beginSave (w : World) (backend : Option Nat) (entries : Entries) : (Bool × Nat) × World :=
  match backend with
  | none => ((true, 0), w)
  | some b =>
    match w.backends[b]? with
    | none => ((true, 0), w)
    | some keeper =>
      let (response, keeper) := keeper.respond
      let w := w.updateBackend b fun _ => keeper
      ((response, waitTime keeper.saveTime), w.note b (.save entries))

def endSave (w : World) (backend : Option Nat) (response : Bool) (entries : Entries) : Bool × World :=
  match backend with
  | none => (response, w)
  | some b =>
    match w.backends[b]? with
    | none => (response, w)
    | some keeper =>
      let (succeeded, keeper) := keeper.save response entries
      let w := w.updateBackend b fun _ => keeper
      (succeeded, w.note b (.saveEnd succeeded))

def copyOf (m : Manager String String) : Entries :=
  match m.phase with
  | .saving _ copy => copy
  | _ => []

def move (w : World) (i : Nat) (x : Worker) (m : Move) : World :=
  let advance (w : World) (s : Step String String) : World :=
    w.updateWorker i fun x => x.withManager (x.manager.step s)
  match m with
  | .load =>
    let (entries, w) := w.loadSnapshot x.backend
    let (now, w) := (readClock x.wallClock).run w
    advance w (.load entries now)
  | .wake => (advance w .wake).setDue i x.scheduled.frequency
  | .elapse => advance w .elapse
  | .mark => advance w .mark
  | .copy =>
    if x.manager.persistent then
      let ((response, duration), w) := w.beginSave x.backend x.manager.contents.entries
      let w := w.updateWorker i fun x => { x with response }
      (advance w .copy).setDue i duration
    else advance w .copy
  | .finish =>
    let (succeeded, w) := w.endSave x.backend x.response (copyOf x.manager)
    advance w (.finish succeeded)
  | .record => advance w .record
  | .drain => advance w .drain
  | .announce => advance w .announce

def drive : Nat → World → Nat → World
  | 0, w, _ => w
  | fuel + 1, w, i =>
    match w.workers[i]? with
    | none => w
    | some x =>
      match x.scheduled.next w.time with
      | none => w
      | some m => drive fuel (w.move i x m) i

/-! ## The queue -/

def isQueued (w : World) (i : Nat) : Bool :=
  w.queue.any fun job =>
    match job with
    | .load j | .save j => i = j
    | .request .. => false

/-- The background work that need not wait any more but is not in the queue yet, with the turn that it
has. -/
def awakened (w : World) : List (Nat × Job) :=
  (List.range w.workers.length).filterMap fun i =>
    w.workers[i]?.bind fun x =>
      if (x.scheduled.next w.time).isSome && !w.isQueued i then some (x.turn, x.job i) else none

def lineUp (w : World) : World :=
  { w with queue := w.queue ++ (w.awakened.mergeSort fun a b => a.1 ≤ b.1).map (·.2) }

/-- Does a piece of work until it has to wait. Once a snapshot is loaded, the cache's saving work and the
warnings that waited for it are ready. -/
def runJob (w : World) (job : Job) : World :=
  match job with
  | .load i =>
    match w.workers[i]? with
    | none => w
    | some x =>
      let w := (w.move i x .load).updateWorker i fun x => { x with requests := [] }
      { w with queue := w.queue ++ .save i :: x.requests.map (.request i) }
  | .save i => (w.drive ((w.workers[i]?.map fun x => x.scheduled.rank).getD 0) i).beginWait i
  | .request i r => (w.perform i r).2

/-- How many pieces of work there can be, and how often a wait can end, before someone asks for
something. -/
def effort (w : World) : Nat :=
  let warnings := w.workers.foldl (fun n x => n + x.requests.length) w.queue.length
  w.workers.foldl (fun n x => n + x.scheduled.rank) (8 * warnings + 1)

def settleFrom : Nat → World → World
  | 0, w => w
  | fuel + 1, w =>
    let w := w.lineUp
    match w.queue with
    | [] => w
    | job :: rest => settleFrom fuel (({ w with queue := rest }).runJob job)

def isShutDown (w : World) (i : Nat) : Bool :=
  (w.workers[i]?.map fun x => x.manager.cancelled).getD false

def settle (w : World) : World :=
  let w := { w with pressures := w.pressures.map fun p => p.releaseAll w.isShutDown }
  settleFrom w.effort w

/-! ## Waiting -/

def nextAlarm (w : World) : Option Nat := (w.workers.filterMap fun x => x.scheduled.alarm).min?

def waitFrom : Nat → Nat → World → World
  | 0, target, w => { w with time := max w.time target }
  | fuel + 1, target, w =>
    match w.nextAlarm with
    | some t =>
      if t ≤ target then waitFrom fuel target ({ w with time := max w.time t }).settle
      else { w with time := max w.time target }
    | none => { w with time := max w.time target }

def waitUntil (w : World) (target : Nat) : World := waitFrom w.effort target w

def waitLoaded (w : World) (i : Nat) : World :=
  match w.workers[i]? with
  | some x => if x.isLoading then w.waitUntil x.scheduled.due else w
  | none => w

def isClosed (w : World) (i : Nat) : Bool :=
  (w.workers[i]?.map fun x => decide (x.manager.lifecycle = .closed)).getD false

/-- Lets time pass until a cache is closed, but only up to `deadline`, and says whether it closed before
that. -/
def waitClosedFrom : Nat → Nat → Nat → World → Bool × World
  | 0, _, _, w => (false, w)
  | fuel + 1, deadline, i, w =>
    if w.isClosed i then (true, w)
    else
      match w.nextAlarm with
      | some t =>
        if t < deadline then
          waitClosedFrom fuel deadline i ({ w with time := max w.time t }).settle
        else (false, { w with time := deadline })
      | none => (false, { w with time := deadline })

def waitClosed (w : World) (i duration : Nat) : Bool × World :=
  waitClosedFrom (w.effort + 1) (w.time + duration) i w

end World

end ExpiringCache.Simulation
