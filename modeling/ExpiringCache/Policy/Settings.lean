import ExpiringCache.Policy.Basic

/-!
Building a policy from settings made one after another. A later setting replaces an earlier one of its
kind; the two limits on life exclude each other, and the first setting that does no good ends it.
-/
namespace ExpiringCache
set_option autoImplicit false

inductive Policy.Setting where
  | maxSize (size : Nat)
  | lifetime (limit : Lifetime)
deriving DecidableEq

namespace Policy

/-- The limit on life that is set, if it is of another kind than `l`. -/
def conflict (p : Policy) (l : Lifetime) : Option Lifetime :=
  p.lifetime.filter fun present => present.kind ≠ l.kind

/-- Makes one setting. A limit that is too small is refused before one that conflicts. -/
def set (p : Policy) : Setting → Except SetupError Policy
  | .maxSize n =>
    if h : 0 < n then .ok { p with maxSize := some n, maxSize_pos := by simpa using h }
    else .error .zeroMaxSize
  | .lifetime l =>
    if h : shortestLifetime.nanos ≤ l.limit.nanos then
      match p.conflict l with
      | some present => .error (.otherLifetime l.kind present.limit)
      | none => .ok { p with lifetime := some l, shortest_le := by simpa using h }
    else .error (.shortLifetime l.kind l.limit)

/-- A setting that was refused, and how many came before it. -/
structure Refusal where
  index : Nat
  error : SetupError
deriving DecidableEq

/-- Makes settings in order, the first of which is number `index`. -/
def setAll (index : Nat) (p : Policy) : List Setting → Except Refusal Policy
  | [] => .ok p
  | s :: rest =>
    match p.set s with
    | .ok q => setAll (index + 1) q rest
    | .error e => .error ⟨index, e⟩

def ofSettings (settings : List Setting) : Except Refusal Policy := setAll 0 unlimited settings

end Policy

end ExpiringCache
