import ExpiringCache.Duration
import ExpiringCache.Files.Fault
import ExpiringCache.Json.Fault
import ExpiringCache.Text.Numeral

/-!
What can go wrong: in setting up a cache, and in reading or saving its snapshot. Each cause belongs to a
kind, and a message is the kind's opening words before the cause's own.
-/
namespace ExpiringCache
set_option autoImplicit false

/-! ## Setting up a cache -/

inductive LifetimeKind where
  | timeToLive
  | timeToIdle
deriving DecidableEq

def LifetimeKind.name : LifetimeKind → String
  | .timeToLive => "entry_ttl"
  | .timeToIdle => "entry_tti"

def LifetimeKind.other : LifetimeKind → LifetimeKind
  | .timeToLive => .timeToIdle
  | .timeToIdle => .timeToLive

inductive SetupError where
  | zeroMaxSize
  | shortLifetime (kind : LifetimeKind) (limit : Duration)
  /-- a limit of kind `kind` where one of the other kind is set to `limit` -/
  | otherLifetime (kind : LifetimeKind) (limit : Duration)
  /-- snapshots without a way to say when to save the last one -/
  | missingShutdown
  | noRuntime
  | setting (name raw : String) (fault : Text.NumeralFault)
deriving DecidableEq

inductive SetupError.Kind where
  | invalidArgument
  | invalidState
  | missingCollaborator
  | noRuntime
  | config
deriving DecidableEq

namespace SetupError

def Kind.message (kind : Kind) (cause : String) : String :=
  let opening := match kind with
    | .invalidArgument => "Invalid argument: "
    | .invalidState => "Invalid state: "
    | .missingCollaborator => "Missing collaborator: "
    | .noRuntime => "No runtime: "
    | .config => "Invalid configuration: "
  opening ++ cause

def kind : SetupError → Kind
  | .zeroMaxSize => .invalidArgument
  | .shortLifetime .. => .invalidArgument
  | .otherLifetime .. => .invalidState
  | .missingShutdown => .missingCollaborator
  | .noRuntime => .noRuntime
  | .setting .. => .config

def cause : SetupError → String
  | .zeroMaxSize => "max_size must be > 0. max_size = 0"
  | .shortLifetime kind limit =>
    s!"{kind.name} must be at least 1ms. {kind.name} = {limit.text}"
  | .otherLifetime kind limit =>
    let present := kind.other.name
    s!"{kind.name} cannot be set after {present} has been set. {present} = {limit.text}"
  | .missingShutdown => "shutdown_token is required when a snapshot persistent cache is set"
  | .noRuntime =>
    "there is no reactor running, must be called from the context of a Tokio 1.x runtime"
  | .setting name raw fault => s!"{name}={Text.quoted raw}: {fault.message}"

def message (e : SetupError) : String := e.kind.message e.cause

end SetupError

/-! ## Snapshots -/

inductive SnapshotError where
  /-- the file system refused a step that concerns `path` -/
  | file (path : String) (fault : Files.Fault)
  | codec (fault : Json.Fault)
  | unavailable (reason : String)
deriving DecidableEq

inductive SnapshotError.Kind where
  | file (path : String)
  | codec
  | unavailable
deriving DecidableEq

namespace SnapshotError

def Kind.message (kind : Kind) (cause : String) : String :=
  match kind with
  | .file path => s!"Snapshot I/O failed for {path}: {cause}"
  | .codec => "Snapshot codec error: " ++ cause
  | .unavailable => "Snapshot backend unavailable: " ++ cause

def kind : SnapshotError → Kind
  | .file path _ => .file path
  | .codec _ => .codec
  | .unavailable _ => .unavailable

def cause : SnapshotError → String
  | .file _ fault => fault.message
  | .codec fault => fault.message
  | .unavailable reason => reason

def message (e : SnapshotError) : String := e.kind.message e.cause

/-- The error below this one, which a full report adds on lines of its own. -/
def source (e : SnapshotError) : Option String :=
  match e with
  | .file .. | .codec .. => some e.cause
  | .unavailable _ => none

end SnapshotError

end ExpiringCache
