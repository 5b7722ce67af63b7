import ExpiringCache.Duration

/-!
A clock that moves only when told to, or by a fixed step at each reading.
-/
namespace ExpiringCache
set_option autoImplicit false

/-- A hand-driven clock: what it shows, and how far each reading moves it. -/
structure Clock where
  now : Instant
  step : Int64
deriving DecidableEq

namespace Clock

def frozen (start : Instant) : Clock := ⟨start, 0⟩

def ticking (start : Instant) (step : Duration) : Clock := ⟨start, step.toSpan⟩

/-- What the clock shows, and the clock after that reading. Its hand wraps around. -/
def read (c : Clock) : Instant × Clock := (c.now, { c with now := c.now + c.step })

def advance (c : Clock) (span : Duration) : Clock := { c with now := c.now + span.toSpan }

def set (c : Clock) (now : Instant) : Clock := { c with now := now }

def setStep (c : Clock) (step : Duration) : Clock := { c with step := step.toSpan }

end Clock

end ExpiringCache
