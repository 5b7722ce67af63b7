import ExpiringCache.Instant

/-!
What a cache holds for one key: the value, when it was written and when it was last written or read.
-/
namespace ExpiringCache
set_option autoImplicit false

structure Entry (K V : Type) where
  key : K
  value : V
  created : Instant
  accessed : Instant
deriving DecidableEq

namespace Entry
variable {K V : Type}

/-- An entry written at `now`. -/
def fresh (key : K) (value : V) (now : Instant) : Entry K V := ⟨key, value, now, now⟩

/-- The entry as a reading at `now` leaves it. -/
def accessedAt (e : Entry K V) (now : Instant) : Entry K V := { e with accessed := now }

@[simp] theorem key_accessedAt (e : Entry K V) (now : Instant) : (e.accessedAt now).key = e.key := rfl

@[simp] theorem value_accessedAt (e : Entry K V) (now : Instant) :
    (e.accessedAt now).value = e.value := rfl

@[simp] theorem created_accessedAt (e : Entry K V) (now : Instant) :
    (e.accessedAt now).created = e.created := rfl

@[simp] theorem accessed_accessedAt (e : Entry K V) (now : Instant) :
    (e.accessedAt now).accessed = now := rfl

end Entry

end ExpiringCache
