import ExpiringCache.Policy.Basic

/-!
Expiry in the course of time. An entry that has expired stays expired, an older entry expires no later
than a younger one, and none has expired at its own instant. In a list that is in the order of a policy
the expired entries therefore come first.
-/
namespace ExpiringCache
set_option autoImplicit false

/-! ## Instants and spans -/

theorem Duration.toInt_toSpan_nonneg (d : Duration) : 0 ≤ d.toSpan.toInt := by
  rw [toInt_toSpan]
  omega

namespace Instant

theorem after_le_after {s t : Instant} (h : s ≤ t) (span : Int64) : s.after span ≤ t.after span := by
  rw [Int64.le_iff_toInt_le] at h ⊢
  rw [toInt_after, toInt_after]
  omega

theorem le_after (t : Instant) {span : Int64} (h : 0 ≤ span.toInt) : t ≤ t.after span := by
  have hlow := t.le_toInt
  have hhigh := t.toInt_lt
  rw [Int64.le_iff_toInt_le, toInt_after]
  omega

end Instant

/-! ## One entry -/

namespace Policy
variable {K V : Type} {p : Policy}

/-- The life of an entry counts from the instant by which it is put in order. -/
theorem since_eq_sortKey {l : Lifetime} (h : p.lifetime = some l) (e : Entry K V) :
    l.since e = p.sortKey e := by
  cases l <;> simp [Lifetime.since, sortKey, timeToIdle, h]

theorem isExpired_iff {e : Entry K V} {now : Instant} :
    p.isExpired e now = true ↔
      ∃ l, p.lifetime = some l ∧ (p.sortKey e).after l.limit.toSpan < now := by
  unfold isExpired
  cases h : p.lifetime with
  | none => simp
  | some l => simp [Lifetime.isExpired, since_eq_sortKey h]

theorem isExpired_later {e : Entry K V} {t now : Instant} (h : p.isExpired e t = true) (ht : t ≤ now) :
    p.isExpired e now = true := by
  obtain ⟨l, hl, hlt⟩ := isExpired_iff.mp h
  exact isExpired_iff.mpr ⟨l, hl, Int64.lt_of_lt_of_le hlt ht⟩

theorem isExpired_older {a b : Entry K V} {now : Instant} (hab : p.sortKey a ≤ p.sortKey b)
    (h : p.isExpired b now = true) : p.isExpired a now = true := by
  obtain ⟨l, hl, hlt⟩ := isExpired_iff.mp h
  exact isExpired_iff.mpr ⟨l, hl, Int64.lt_of_le_of_lt (Instant.after_le_after hab _) hlt⟩

theorem isExpired_eq_false {e : Entry K V} {now : Instant} (h : now ≤ p.sortKey e) :
    p.isExpired e now = false := by
  rw [Bool.eq_false_iff]
  intro hexp
  obtain ⟨l, _, hlt⟩ := isExpired_iff.mp hexp
  have hle := Instant.le_after (p.sortKey e) l.limit.toInt_toSpan_nonneg
  exact Int64.lt_irrefl (Int64.lt_of_lt_of_le hlt (Int64.le_trans h hle))

@[simp] theorem sortKey_fresh (key : K) (value : V) (now : Instant) :
    p.sortKey (Entry.fresh key value now) = now := by
  simp [sortKey, Entry.fresh]

@[simp] theorem isExpired_fresh (key : K) (value : V) (now : Instant) :
    p.isExpired (Entry.fresh key value now) now = false :=
  isExpired_eq_false (by simp)

theorem sortKey_accessedAt_of_idle (h : p.timeToIdle.isSome = true) (e : Entry K V) (now : Instant) :
    p.sortKey (e.accessedAt now) = now := by
  simp [sortKey, h]

theorem sortKey_accessedAt (h : p.timeToIdle.isSome = false) (e : Entry K V) (now : Instant) :
    p.sortKey (e.accessedAt now) = p.sortKey e := by
  simp [sortKey, h]

/-- Entries with the same instant of the policy expire together. -/
theorem isExpired_congr {a b : Entry K V} (h : p.sortKey a = p.sortKey b) (now : Instant) :
    p.isExpired a now = p.isExpired b now := by
  rw [Bool.eq_iff_iff]
  constructor
  · exact isExpired_older (h ▸ Int64.le_refl _)
  · exact isExpired_older (h ▸ Int64.le_refl _)

/-! ## Lists of entries -/

def unexpired (p : Policy) (now : Instant) (entries : List (Entry K V)) : List (Entry K V) :=
  entries.filter fun e => !p.isExpired e now

/-- The entries are in the order of the policy, the oldest first. -/
def InOrder (p : Policy) (entries : List (Entry K V)) : Prop :=
  entries.Pairwise fun a b => p.sortKey a ≤ p.sortKey b

theorem mem_unexpired {e : Entry K V} {now : Instant} {entries : List (Entry K V)} :
    e ∈ p.unexpired now entries ↔ e ∈ entries ∧ p.isExpired e now = false := by
  simp [unexpired]

theorem unexpired_append (now : Instant) (as bs : List (Entry K V)) :
    p.unexpired now (as ++ bs) = p.unexpired now as ++ p.unexpired now bs :=
  List.filter_append ..

theorem length_unexpired_le (now : Instant) (entries : List (Entry K V)) :
    (p.unexpired now entries).length ≤ entries.length :=
  List.length_filter_le ..

theorem unexpired_eq_self {now : Instant} {entries : List (Entry K V)}
    (h : ∀ e ∈ entries, p.isExpired e now = false) : p.unexpired now entries = entries := by
  rw [unexpired, List.filter_eq_self]
  intro e he
  simp [h e he]

/-- Looking earlier takes nothing away that would be left later. -/
theorem unexpired_unexpired {t now : Instant} (ht : t ≤ now) (entries : List (Entry K V)) :
    p.unexpired now (p.unexpired t entries) = p.unexpired now entries := by
  rw [unexpired, unexpired, unexpired, List.filter_filter]
  refine List.filter_congr fun e _ => ?_
  cases hnow : p.isExpired e now with
  | true => simp
  | false =>
    have hthen : p.isExpired e t = false := by
      rw [Bool.eq_false_iff] at hnow ⊢
      exact fun h => hnow (isExpired_later h ht)
    simp [hthen]

/-- Passing over the expired entries at the front passes over all of them, if the list is in order. -/
theorem dropWhile_isExpired {entries : List (Entry K V)} (h : p.InOrder entries) (now : Instant) :
    entries.dropWhile (fun e => p.isExpired e now) = p.unexpired now entries := by
  induction entries with
  | nil => rfl
  | cons e rest ih =>
    obtain ⟨hfirst, hrest⟩ := List.pairwise_cons.mp h
    cases he : p.isExpired e now with
    | true =>
      simp only [List.dropWhile_cons, he, if_true]
      rw [ih hrest]
      simp [unexpired, he]
    | false =>
      have hlive : ∀ x ∈ e :: rest, p.isExpired x now = false := by
        intro x hx
        rw [Bool.eq_false_iff]
        intro hexp
        rcases List.mem_cons.mp hx with rfl | hx
        · simp [he] at hexp
        · exact absurd (isExpired_older (hfirst x hx) hexp) (by simp [he])
      rw [unexpired_eq_self hlive]
      simp [he]

end Policy

end ExpiringCache
