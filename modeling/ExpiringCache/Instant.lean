/-!
Instants on a cache's clock: whole milliseconds, counted from the epoch in 64 signed bits.
Main statement: moving an instant forward clamps to the range and never wraps.
-/
namespace ExpiringCache
set_option autoImplicit false

/-- Milliseconds since the epoch. -/
abbrev Instant := Int64

namespace Instant

/-- Bringing a number into the range moves it to the nearer end, if it lies outside. -/
theorem toInt_ofIntClamp (n : Int) :
    (Int64.ofIntClamp n).toInt = max (-0x8000000000000000) (min 0x7fffffffffffffff n) := by
  have hmin : Int64.minValue.toInt = -0x8000000000000000 := by decide
  have hmax : Int64.maxValue.toInt = 0x7fffffffffffffff := by decide
  unfold Int64.ofIntClamp
  split
  · split
    · rw [Int64.toInt_ofIntLE]
      omega
    · omega
  · omega

/-- The instant `span` milliseconds after `t`; past either end of the range it stays at that end. -/
def after (t : Instant) (span : Int64) : Instant :=
  Int64.ofIntClamp (t.toInt + span.toInt)

theorem toInt_after (t : Instant) (span : Int64) :
    (t.after span).toInt =
      max (-0x8000000000000000) (min 0x7fffffffffffffff (t.toInt + span.toInt)) :=
  toInt_ofIntClamp _

end Instant

end ExpiringCache
