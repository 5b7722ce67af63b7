import ExpiringCache.Policy.Settings
import ExpiringCache.Text.Blank

/-!
Settings by name, as an environment holds them: the limits of the cache, how long to wait before saving
a snapshot, and where to keep it. A numeric setting that is absent or blank is not made.
-/
namespace ExpiringCache
set_option autoImplicit false

structure Config where
  maxSize : Option Nat := none
  entryTtlSecs : Option Nat := none
  entryTtiSecs : Option Nat := none
  saveFrequencyMs : Nat := 5000
  snapshotDir : Option String := none
  snapshotFile : String := "snapcache.json"
deriving DecidableEq

namespace Config

/-- The settings that are looked up, in the order in which a fault is reported. -/
def names : List String :=
  ["CACHE_MAX_SIZE", "CACHE_ENTRY_TTL_SECS", "CACHE_ENTRY_TTI_SECS", "CACHE_SAVE_FREQUENCY_MS",
    "CACHE_SNAPSHOT_DIR", "CACHE_SNAPSHOT_FILE"]

/-- The number that a setting's text stands for, if it is not blank. -/
def number (name : String) (raw : Option String) : Except SetupError (Option Nat) :=
  match raw with
  | none => .ok none
  | some text =>
    let trimmed := Text.trim text.toList
    if trimmed.isEmpty then .ok none
    else
      match Text.numeral trimmed with
      | .ok n => .ok (some n)
      | .error fault => .error (.setting name text fault)

def text (raw : Option String) : Option String := raw.filter fun s => s ≠ ""

def ofLookup (lookup : String → Option String) : Except SetupError Config := do
  let numeric (name : String) := number name (lookup name)
  let maxSize ← numeric "CACHE_MAX_SIZE"
  let entryTtlSecs ← numeric "CACHE_ENTRY_TTL_SECS"
  let entryTtiSecs ← numeric "CACHE_ENTRY_TTI_SECS"
  let frequency ← numeric "CACHE_SAVE_FREQUENCY_MS"
  let defaults : Config := {}
  return {
    maxSize, entryTtlSecs, entryTtiSecs
    saveFrequencyMs := frequency.getD defaults.saveFrequencyMs
    snapshotDir := text (lookup "CACHE_SNAPSHOT_DIR")
    snapshotFile := (text (lookup "CACHE_SNAPSHOT_FILE")).getD defaults.snapshotFile }

def settings (c : Config) : List Policy.Setting :=
  (c.maxSize.map .maxSize).toList
    ++ (c.entryTtlSecs.map fun n => .lifetime (.timeToLive (.ofSecs n))).toList
    ++ (c.entryTtiSecs.map fun n => .lifetime (.timeToIdle (.ofSecs n))).toList

def policy (c : Config) : Except SetupError Policy :=
  (Policy.ofSettings c.settings).mapError (·.error)

def saveFrequency (c : Config) : Duration := .ofMillis c.saveFrequencyMs

end Config

end ExpiringCache
