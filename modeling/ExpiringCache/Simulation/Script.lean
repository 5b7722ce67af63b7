import ExpiringCache.Config
import ExpiringCache.Simulation.World

/-!
Scripts for a simulation: the commands that a user gives, what each answers, and what can be seen of the
current cache after it.
-/
namespace ExpiringCache.Simulation
set_option autoImplicit false

inductive Wrapping where
  | bare
  | decorated
  /-- it listens to warnings if it is given a source of them, and serves reads and writes only -/
  | plain
deriving DecidableEq

structure BuildOptions where
  lookup : Option (List (String × String)) := none
  /-- settings of the policy, in place of those by name -/
  policy : Option (List Policy.Setting) := none
  saveFrequency : Option Nat := none
  backend : Option Nat := none
  token : Option String := none
  notifier : Option Nat := none
  hasRuntime : Bool := true
  wallClock : Bool := false
  wrapping : Wrapping := .bare

inductive Command where
  | build (options : BuildOptions)
  | use (handle : Nat)
  | request (request : Request String String)
  | size
  | hitRate
  | policy
  | lifecycle
  | awaitClosed (duration : Nat)
  | isCancelled
  | clone
  | drop
  | sleep (duration : Nat)
  | cancel (token : String)
  | signal (level : MemoryLevel) (notifier : Nat)
  | isAttached (notifier : Nat)
  | inspect (backend : Nat)
  | setResponses (backend : Nat) (responses : List Bool)
  | readClock
  | peekClock
  | advanceClock (span : Duration)
  | setClock (now : Instant)
  | setClockStep (step : Duration)

inductive Reply where
  | none
  | refused (error : SetupError)
  | built (handle : Nat) (life : Option Lifecycle)
  | value (value : Option String)
  | size (entries : Nat)
  | hitRate (rate : Float)
  | policy (policy : Policy)
  | lifecycle (life : Lifecycle)
  | flag (value : Bool)
  | memory (data : Option Entries) (saves : Nat)
  | file (content : Option Bytes)
  | instant (now : Instant)

structure Observation where
  life : Lifecycle
  contents : Option (Entries × Stats)

/-- The answer to a command: its reply, the clock, the current cache, and what happened, in order of time
and keeper. -/
structure Answer where
  reply : Reply
  clock : Instant
  observation : Option Observation
  events : List Event

namespace World

/-! ## Building -/

def configure (o : BuildOptions) : Except SetupError (Policy × Nat) := do
  let (policy, frequency) ←
    match o.lookup with
    | some vars => do
      let c ← Config.ofLookup fun name => vars.lookup name
      let p ← c.policy
      pure (p, c.saveFrequencyMs)
    | none => pure (Policy.unlimited, ({} : Config).saveFrequencyMs)
  let policy ←
    match o.policy with
    | some settings => (Policy.ofSettings settings).mapError (·.error)
    | none => pure policy
  let frequency := o.saveFrequency.getD frequency
  return (policy, frequency)

def readTime (w : World) (backend : Option Nat) : Nat :=
  ((backend.bind fun b => w.backends[b]?).map (·.readTime)).getD 0

def isUsed (w : World) : Token → Bool
  | .shared name => w.cancelled.contains name
  | .own _ => false

def start (w : World) (o : BuildOptions) (policy : Policy) (frequency : Nat) : Reply × World :=
  let i := w.workers.length
  let token := (o.token.map Token.shared).getD (.own i)
  let manager := Manager.start policy o.backend.isSome
  let worker : Worker := {
    scheduled := {
      manager := { manager with cancelled := w.isUsed token }
      frequency := waitTime frequency
      due := w.time + waitTime (w.readTime o.backend) }
    backend := o.backend
    token
    wallClock := o.wallClock
    turn := w.turns }
  let listening := if o.wrapping = .bare then none else o.notifier
  let w := match o.backend with
    | some b => w.note b .read
    | none => w
  let w := { w with
    workers := w.workers ++ [worker]
    turns := w.turns + 1
    pressures := match listening with
      | some n => w.pressures.modify n fun p => p.decorate i
      | none => w.pressures
    handles := w.handles ++ [{ cache := i, isPlain := o.wrapping = .plain }] }
  let life := if o.wrapping = .plain then none else some manager.lifecycle
  (.built (w.handles.length - 1) life, w)

def build (w : World) (o : BuildOptions) : Reply × World :=
  match configure o with
  | .error e => (.refused e, w)
  | .ok (policy, frequency) =>
    match (Setup.mk o.hasRuntime o.backend.isSome o.token.isSome).check with
    | .error e => (.refused e, w)
    | .ok () => w.start o policy frequency

/-! ## Shutting down -/

def cancel (w : World) (token : Token) : World :=
  let w := { w with
    workers := w.workers.map fun x =>
      if x.token = token then x.withManager (x.manager.step .cancel) else x }
  match token with
  | .shared name => { w with cancelled := name :: w.cancelled }
  | .own _ => w

/-- Lets go of a handle. A cache with a token of its own shuts down with its last handle. -/
def dropHandle (w : World) (handle : Nat) : World :=
  match w.handles[handle]? with
  | none => w
  | some h =>
    let w := { w with handles := w.handles.modify handle fun h => { h with dropped := true } }
    if w.handles.any fun g => g.cache = h.cache && !g.dropped then w else w.cancel (.own h.cache)

/-! ## Commands -/

/-- A reply about a worker that is waited for until it has loaded its snapshot. -/
def afterLoading (w : World) (i : Nat) (reply : Worker → Reply) : Reply × World :=
  let w := w.waitLoaded i
  (((w.workers[i]?).map reply).getD .none, w)

/-- Gives a warning to whoever listens to a source. A cache that loads its snapshot sees to it after
that. -/
def warn (w : World) (level : MemoryLevel) (notifier : Nat) : World :=
  match (w.pressures[notifier]?).bind fun p => p.notifier.signal level with
  | none => w
  | some (i, level) =>
    if (w.workers[i]?.map (·.isLoading)).getD false then
      w.updateWorker i fun x => { x with requests := x.requests ++ [level.request] }
    else { w with queue := w.queue ++ [.request i level.request] }

def execute (w : World) (c : Command) : Reply × World :=
  let cache := ((w.handles[w.current]?).map (·.cache)).getD w.workers.length
  match c with
  | .build o => w.build o
  | .use handle => (.none, { w with current := handle })
  | .request r =>
    let (value, w) := (w.waitLoaded cache).perform cache r
    match r with
    | .get _ => (.value value, w)
    | _ => (.none, w)
  | .size => w.afterLoading cache fun x => .size x.manager.contents.size
  | .hitRate => w.afterLoading cache fun x => .hitRate x.manager.contents.stats.hitRate
  | .policy => ((w.workers[cache]?.map fun x => .policy x.manager.policy).getD .none, w)
  | .lifecycle => ((w.workers[cache]?.map fun x => .lifecycle x.manager.lifecycle).getD .none, w)
  | .awaitClosed duration =>
    let (closed, w) := w.waitClosed cache duration
    (.flag closed, w)
  | .isCancelled => (.flag (w.isShutDown cache), w)
  | .clone =>
    (.built w.handles.length none, { w with handles := w.handles ++ [{ cache, isPlain := false }] })
  | .drop => (.none, w.dropHandle w.current)
  | .sleep duration => (.none, w.waitUntil (w.time + waitTime duration))
  | .cancel token => (.none, w.cancel (.shared token))
  | .signal level notifier => (.none, w.warn level notifier)
  | .isAttached notifier =>
    (.flag ((w.pressures[notifier]?.map fun p => p.notifier.isAttached).getD false), w)
  | .inspect b =>
    match w.backends[b]? with
    | some { medium := .memory data saves, .. } => (.memory data saves, w)
    | some { medium := .file _ tree, .. } => (.file (Backend.fileContent tree), w)
    | none => (.none, w)
  | .setResponses b responses => (.none, w.updateBackend b fun k => { k with responses })
  | .readClock =>
    let (now, clock) := w.clock.read
    (.instant now, { w with clock })
  | .peekClock => (.instant w.clock.now, w)
  | .advanceClock span => (.none, { w with clock := w.clock.advance span })
  | .setClock now => (.none, { w with clock := w.clock.set now })
  | .setClockStep step => (.none, { w with clock := w.clock.setStep step })

def observe (w : World) : Option Observation := do
  let h ← w.handles[w.current]?
  if h.dropped || h.isPlain then none
  else
    let x ← w.workers[h.cache]?
    let c := x.manager.contents
    let contents := if x.isLoading then none else some (c.entries, c.report)
    return { life := x.manager.lifecycle, contents }

def eventsInOrder (w : World) : List Event :=
  w.events.reverse.mergeSort fun a b => a.time < b.time || (a.time = b.time && a.backend ≤ b.backend)

def run (w : World) (c : Command) : Answer × World :=
  let (reply, w) := w.execute c
  let w := w.settle
  ({ reply, clock := w.clock.now, observation := w.observe, events := w.eventsInOrder },
    { w with events := [] })

def runAll (w : World) : List Command → List Answer
  | [] => []
  | c :: cs =>
    let (answer, w) := w.run c
    match c with
    | .use _ => w.runAll cs
    | _ => answer :: w.runAll cs

end World

end ExpiringCache.Simulation
