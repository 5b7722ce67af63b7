import ExpiringCache.Proofs.Expiry
import ExpiringCache.Proofs.PolicySettings

/-!
Expiry in exact numbers. A limit on life is cut to whole milliseconds and capped, and the instant at which a life
ends is kept in the range of the clock. Main statement: neither makes an entry expire sooner or later than the plain
difference of two numbers says, unless its date lies before the epoch and its limit is longer than the clock can show.
-/
namespace ExpiringCache
set_option autoImplicit false

/-! ## Dates and spans -/

/-- The span is short enough, or the date late enough, for the range of the clock not to matter. -/
def Duration.FitsAfter (d : Duration) (since : Instant) : Prop :=
  0 ≤ since.toInt ∨ d.nanos / 1000000 < 2 ^ 63

/-- More than the whole milliseconds of the span have gone by since the date. -/
def Duration.PastAfter (d : Duration) (since now : Instant) : Prop :=
  (d.nanos / 1000000 : Nat) < now.toInt - since.toInt

/-- The end of a life as the clock can show it comes before the same instants as the true one. -/
theorem Instant.after_lt_iff {d : Duration} {since now : Instant} (h : d.FitsAfter since) :
    since.after d.toSpan < now ↔ d.PastAfter since now := by
  have hlow := since.le_toInt
  have hlast := now.toInt_lt
  rw [Int64.lt_iff_toInt_lt, toInt_after, Duration.toInt_toSpan, Duration.wholeMillis]
  unfold Duration.PastAfter
  -- An end past the last instant is moved to it, and nothing comes after that either.
  rcases h with hdate | hspan
  · omega
  · omega

/-! ## Policies -/

namespace Policy
section
variable {K V : Type} {settings : List Setting} {p : Policy}

theorem isExpired_exact {l : Lifetime} (hl : p.lifetime = some l) {e : Entry K V} (h : l.limit.FitsAfter (l.since e))
    (now : Instant) : p.isExpired e now = true ↔ l.limit.PastAfter (l.since e) now := by
  simp only [isExpired, hl, Lifetime.isExpired, decide_eq_true_iff]
  exact Instant.after_lt_iff h

variable (K V) in
/-- Under a policy made by these settings, an entry has expired once more than the whole milliseconds of the limit
that was set last have gone by since it was written, or since it was last written or read. -/
structure ExpiresExactly (settings : List Setting) (p : Policy) : Prop where
  live {d : Duration} : lastLimit .timeToLive settings = some d → ∀ (e : Entry K V) (now : Instant),
    d.FitsAfter e.created → (p.isExpired e now = true ↔ d.PastAfter e.created now)
  idle {d : Duration} : lastLimit .timeToIdle settings = some d → ∀ (e : Entry K V) (now : Instant),
    d.FitsAfter e.accessed → (p.isExpired e now = true ↔ d.PastAfter e.accessed now)
  later (e : Entry K V) {t now : Instant} : t ≤ now → p.isExpired e t = true → p.isExpired e now = true
  written (key : K) (value : V) (now : Instant) : p.isExpired (Entry.fresh key value now) now = false
  touched {d : Duration} : lastLimit .timeToIdle settings = some d → ∀ (e : Entry K V) (now : Instant),
    p.isExpired (e.accessedAt now) now = false

variable (K V) in
/-- Every policy that settings make keeps its limit on life exactly, whatever the dates of the entries. -/
theorem expires_exactly (h : ofSettings settings = .ok p) : ExpiresExactly K V settings p := by
  have hholds : Holds settings p := (ofSettings_eq_ok_iff.mp h).2
  have hlive : ∀ {d}, lastLimit .timeToLive settings = some d → p.lifetime = some (.timeToLive d) := fun hd =>
    lifetime_eq_live_iff.mpr (hholds.timeToLive.trans hd)
  have hidle : ∀ {d}, lastLimit .timeToIdle settings = some d → p.lifetime = some (.timeToIdle d) := fun hd =>
    lifetime_eq_idle_iff.mpr (hholds.timeToIdle.trans hd)
  refine ⟨fun hd e now hfits => ?_, fun hd e now hfits => ?_, fun e _ _ ht hexp => ?_, isExpired_fresh,
    fun hd e now => ?_⟩
  · exact isExpired_exact (hlive hd) hfits now
  · exact isExpired_exact (hidle hd) hfits now
  · exact isExpired_later hexp ht
  · have hsome : p.timeToIdle.isSome = true := by rw [lifetime_eq_idle_iff.mp (hidle hd), Option.isSome_some]
    exact isExpired_eq_false (Int64.le_of_eq (sortKey_accessedAt_of_idle hsome e now).symm)

end

/-- As many seconds as 64 bits can count, and a nanosecond less than one more. -/
def longest : Duration := ⟨18446744073709551615999999999⟩

/-- Under the longest limit there is, an entry of the epoch is alive at the last instant that the clock can show. -/
theorem expires_exactly_of_longest : ∃ p,
    ofSettings [.lifetime (.timeToIdle (.ofMillis 1)), .lifetime (.timeToIdle longest)] = .ok p ∧
      ExpiresExactly String String
        [.lifetime (.timeToIdle (.ofMillis 1)), .lifetime (.timeToIdle longest)] p ∧
      p.isExpired (Entry.fresh "k" "v" 0) 0x7fffffffffffffff = false :=
  ⟨_, rfl, expires_exactly String String rfl, by decide⟩

/-- The same limit, and an entry from before the epoch: here the range of the clock is too small for it. -/
example : (Lifetime.timeToIdle longest).isExpired (Entry.fresh "k" "v" (-1)) 0x7fffffffffffffff = true := by decide

end Policy

end ExpiringCache
