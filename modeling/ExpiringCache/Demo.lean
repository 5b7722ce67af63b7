import ExpiringCache.Config
import ExpiringCache.Pressure
import ExpiringCache.Schedule
import ExpiringCache.Snapshot.File
import ExpiringCache.Snapshot.Report
import ExpiringCache.Text.Utf8

/-!
A cache served line by line: a command on each line, its answer on the output. What a run does to files
and clocks goes through the effects that it is given, so that the same run works on a tree of files in
memory.
-/
namespace ExpiringCache.Demo
set_option autoImplicit false

/-! ## Commands -/

inductive Command where
  | nothing
  | request (request : Request String String)
  | warn (level : MemoryLevel)
  | stats
  | size
  | quit
  | unknown

/-- What the words of a line ask for. The words after the key make the value of `put`; after a key that
is read or removed, more words do no harm. -/
def Command.ofWords : List String → Command
  | [] => .nothing
  | "put" :: key :: value => .request (.put key (" ".intercalate value))
  | "get" :: key :: _ => .request (.get key)
  | "remove" :: key :: _ => .request (.remove key)
  | ["clear"] => .request .clear
  | ["trim"] => .request .trim
  | ["low"] => .warn .low
  | ["critical"] => .warn .critical
  | ["stats"] => .stats
  | ["len"] => .size
  | ["quit"] => .quit
  | _ => .unknown

def Command.ofLine (line : List Char) : Command :=
  .ofWords ((Text.words line).map String.ofList)

def help : String :=
  "commands: put <key> <value> | get <key> | remove <key> | clear | trim | low | critical | stats " ++
    "| len | quit"

/-! ## Effects -/

/-- What a run needs of its surroundings: the wall clock, the time in milliseconds since some moment,
the output, steps in the file system, and the content of a file. -/
structure Effects (m : Type → Type) where
  wall : m Instant
  time : m Nat
  print : Bytes → m Unit
  attempt : FileStep → m (Except SnapshotError Unit)
  readFile : Files.Path → m (Except SnapshotError Bytes)

structure State where
  cache : Scheduled String String
  file : Option SnapshotFile

structure Failure where
  message : String
  source : Option String := none

def Failure.text (f : Failure) : String :=
  let below := match f.source with
    | some s => "\nCaused by:\n    " ++ s ++ "\n"
    | none => ""
  "Error: " ++ f.message ++ "\n" ++ below

def Failure.ofSetup (e : SetupError) : Failure := { message := e.message }

def Failure.ofSnapshot (e : SnapshotError) : Failure := { message := e.message, source := e.source }

section
variable {m : Type → Type} [Monad m] (fx : Effects m)

def printLine (line : Bytes) : m Unit := fx.print (line ++ [Text.ascii '\n'])

def printText (line : String) : m Unit := printLine fx (Text.bytesOf line)

def save (file : Option SnapshotFile) (entries : List (Entry String String)) : m Bool := do
  match file with
  | none => pure true
  | some f =>
    match ← FileStep.runAll fx.attempt (f.saveSteps (Snapshot.encode f.layout (some entries))) with
    | .ok () => pure true
    | .error _ => pure false

def load (file : Option SnapshotFile) : m (List (Entry String String)) := do
  match file with
  | none => pure []
  | some f =>
    match ← FileStep.runAll fx.attempt f.ensureSteps with
    | .error _ => pure []
    | .ok () =>
      match ← fx.readFile f.path with
      | .error _ => pure []
      | .ok content =>
        match SnapshotFile.interpret content with
        | .ok entries => pure (entries.getD [])
        | .error _ => pure []

def move (s : State) (mv : Move) : m State := do
  let manager := s.cache.manager
  let now ← fx.time
  let after (step : Step String String) (due : Nat) : State :=
    { s with cache := { s.cache with manager := manager.step step, due } }
  match mv with
  | .load => do
    let entries ← load fx s.file
    let reading ← fx.wall
    pure (after (.load entries reading) now)
  | .wake => pure (after .wake (now + s.cache.frequency))
  | .elapse => pure (after .elapse now)
  | .mark => pure (after .mark now)
  | .copy => pure (after .copy now)
  | .finish => do
    let succeeded ← match manager.phase with
      | .saving _ copy => save fx s.file copy
      | _ => pure true
    pure (after (.finish succeeded) now)
  | .record => pure (after .record now)
  | .drain => pure (after .drain now)
  | .announce => pure (after .announce now)

def settleFrom : Nat → State → m State
  | 0, s => pure s
  | fuel + 1, s => do
    let now ← fx.time
    match s.cache.next now with
    | none => pure s
    | some mv => do
      let s ← move fx s mv
      settleFrom fuel s

def settle (s : State) : m State := settleFrom fx s.cache.rank s

/-! ## A run -/

def start (lookup : String → Option String) : m (Except Failure State) := do
  match Config.ofLookup lookup with
  | .error e => pure (.error (.ofSetup e))
  | .ok config =>
    match config.policy with
    | .error e => pure (.error (.ofSetup e))
    | .ok policy =>
      let file := config.snapshotDir.map fun dir =>
        SnapshotFile.mk ((Files.Path.ofText dir).join (.ofText config.snapshotFile)) .indented
      let ready ← match file with
        | some f => FileStep.runAll fx.attempt f.ensureSteps
        | none => pure (.ok ())
      match ready with
      | .error e => pure (.error (.ofSnapshot e))
      | .ok () => do
        let cache := ⟨Manager.start policy file.isSome, config.saveFrequencyMs, ← fx.time⟩
        printText fx help
        let s ← settle fx { cache, file }
        pure (.ok s)

def perform (s : State) (r : Request String String) : m (Option String × State) := do
  let action ← r.stamp fx.wall
  let manager := s.cache.manager
  let found := (manager.perform action).value
  pure (found, { s with cache := { s.cache with manager := manager.step (.act action) } })

def execute (s : State) (c : Command) : m (Bool × State) := do
  match c with
  | .nothing => pure (true, s)
  | .request r => do
    let (found, s) ← perform fx s r
    match r with
    | .get _ => printText fx (found.getD "(none)")
    | _ => printText fx "ok"
    pure (true, s)
  | .warn level => do
    let (_, s) ← perform fx s level.request
    printText fx "ok"
    pure (true, s)
  | .stats => do
    printLine fx (s.cache.manager.contents.report.write .indented)
    pure (true, s)
  | .size => do
    printText fx (toString s.cache.manager.contents.size)
    pure (true, s)
  | .quit => pure (false, s)
  | .unknown => do
    printText fx help
    pure (true, s)

/-- Serves one line, given without its end, and says whether the run goes on. -/
def serve (s : State) (line : Bytes) : m (Except Failure (Bool × State)) := do
  match Text.decode line with
  | .error f => pure (.error { message := f.message })
  | .ok cs => do
    let s ← settle fx s
    let (goesOn, s) ← execute fx s (.ofLine cs)
    let s ← settle fx s
    pure (.ok (goesOn, s))

def finish (s : State) : m State :=
  settle fx { s with cache := { s.cache with manager := s.cache.manager.step .cancel } }

def serveAll (s : State) : List Bytes → m (Except Failure State)
  | [] => pure (.ok s)
  | line :: lines => do
    match ← serve fx s line with
    | .error f => pure (.error f)
    | .ok (goesOn, s) => if goesOn then serveAll s lines else pure (.ok s)

def run (lookup : String → Option String) (lines : List Bytes) : m (Option Failure) := do
  match ← start fx lookup with
  | .error f => pure (some f)
  | .ok s =>
    match ← serveAll fx s lines with
    | .error f => pure (some f)
    | .ok s => do
      let _ ← finish fx s
      pure none

end

/-! ## Lines -/

def trimReturn (line : Bytes) : Bytes :=
  if line.getLast? = some (Text.ascii '\r') then line.dropLast else line

/-- The lines of an input, without their ends; `line` is the one under way, backwards. -/
def linesFrom (line : Bytes) : Bytes → List Bytes
  | [] => if line.isEmpty then [] else [line.reverse]
  | b :: s =>
    if b = Text.ascii '\n' then trimReturn line.reverse :: linesFrom [] s
    else linesFrom (b :: line) s

def lines (input : Bytes) : List Bytes := linesFrom [] input

/-! ## A run in memory -/

structure Sandbox where
  tree : Files.Tree
  output : Bytes := []

def sandboxed (now : Instant) : Effects (StateM Sandbox) where
  wall := pure now
  time := pure 0
  print bytes := modify fun s => { s with output := s.output ++ bytes }
  attempt step := do
    let s ← get
    let (result, tree) := step.attempt s.tree
    set { s with tree }
    pure result
  readFile path := do
    let s ← get
    let (result, _) := Files.FileM.read path s.tree
    pure (result.mapError (.file path.text))

structure Result where
  code : Nat
  output : Bytes
  complaint : Bytes
  tree : Files.Tree

def runIn (now : Instant) (tree : Files.Tree) (lookup : String → Option String) (input : Bytes) :
    Result :=
  let (failure, s) := (run (sandboxed now) lookup (lines input)).run { tree }
  match failure with
  | some f => ⟨1, s.output, Text.bytesOf f.text, s.tree⟩
  | none => ⟨0, s.output, [], s.tree⟩

end ExpiringCache.Demo
