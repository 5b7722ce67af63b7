/-!
Counters of what a cache did: hits and misses, entries it gave up, snapshots it saved.
-/
namespace ExpiringCache
set_option autoImplicit false

structure Stats where
  hits : Nat := 0
  misses : Nat := 0
  evictions : Nat := 0
  expirations : Nat := 0
  snapshotSaves : Nat := 0
  snapshotFailures : Nat := 0
  totalEntries : Nat := 0
deriving DecidableEq, Inhabited

namespace Stats

def hit (s : Stats) : Stats := { s with hits := s.hits + 1 }

def miss (s : Stats) : Stats := { s with misses := s.misses + 1 }

def evict (s : Stats) (count : Nat) : Stats := { s with evictions := s.evictions + count }

def expire (s : Stats) (count : Nat) : Stats := { s with expirations := s.expirations + count }

def save (s : Stats) (succeeded : Bool) : Stats :=
  if succeeded then { s with snapshotSaves := s.snapshotSaves + 1 }
  else { s with snapshotFailures := s.snapshotFailures + 1 }

def withTotal (s : Stats) (count : Nat) : Stats := { s with totalEntries := count }

/-- The share of readings that found their key; zero before the first reading. -/
def hitRate (s : Stats) : Float :=
  if s.hits + s.misses = 0 then 0.0
  else s.hits.toUInt64.toFloat / (s.hits + s.misses).toUInt64.toFloat

/-- The counters under the names they have in a report, in its order. -/
def fields (s : Stats) : List (String × Nat) :=
  [("hits", s.hits), ("misses", s.misses), ("evictions", s.evictions),
    ("expirations", s.expirations), ("snapshot_saves", s.snapshotSaves),
    ("snapshot_failures", s.snapshotFailures), ("total_entries", s.totalEntries)]

end Stats

end ExpiringCache
