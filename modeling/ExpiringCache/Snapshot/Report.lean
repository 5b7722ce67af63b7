import ExpiringCache.Snapshot.Writer
import ExpiringCache.Stats

/-!
The text of the counters, laid out like a snapshot.
-/
namespace ExpiringCache
set_option autoImplicit false

open Snapshot (Layout)

/-- The counters under their names. -/
def Stats.write (layout : Layout) (s : Stats) : Bytes :=
  layout.bracketed 0 '{' '}' (s.fields.map fun (name, count) =>
    Scalar.writeString name ++ layout.colon ++ Scalar.writeNat count)

end ExpiringCache
