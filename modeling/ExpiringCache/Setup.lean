import ExpiringCache.Error

/-!
What a cache needs before it can start.
-/
namespace ExpiringCache
set_option autoImplicit false

/-- Which collaborators a cache is given: something that runs its background work, someone who keeps its
snapshots, and a way to ask for a shutdown. -/
structure Setup where
  hasRuntime : Bool
  hasBackend : Bool
  hasShutdown : Bool

namespace Setup

/-- What is missing. Snapshots need a shutdown, after which the last one is saved. -/
def check (s : Setup) : Except SetupError Unit :=
  if !s.hasRuntime then .error .noRuntime
  else if s.hasBackend && !s.hasShutdown then .error .missingShutdown
  else .ok ()

end Setup

end ExpiringCache
