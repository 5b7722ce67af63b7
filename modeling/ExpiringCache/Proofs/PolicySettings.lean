import ExpiringCache.Policy.Settings
import ExpiringCache.Proofs.Journal
import Mathlib.Algebra.Group.Int.Defs
import Mathlib.Algebra.Group.Nat.Defs
import Mathlib.Data.List.Induction

/-!
Which policies can be built. Settings are refused from the first one on that is at fault by itself or beside the
earlier ones; if there is none, so that they ask for limits on life of one kind at most, the policy has the last
value that was given for each limit. Main statement: this is so of every list of settings, and whatever asks a
policy that was built how long entries live and in which order they are kept gets answers that go together.
-/
namespace ExpiringCache
set_option autoImplicit false

/-- Of two places in a list, one does not come after the other. -/
theorem prefix_or_of_split {α : Type} {before before' after after' : List α} {a a' : α}
    (h : before ++ a :: after = before' ++ a' :: after') :
    before <+: before' ∨ ∃ middle, before = before' ++ a' :: middle := by
  rcases List.append_eq_append_iff.mp h with ⟨middle, hbefore, -⟩ | ⟨middle, hbefore, hrest⟩
  · exact .inl ⟨middle, hbefore.symm⟩
  · cases middle with
    | nil => exact .inl ⟨[], by simpa using hbefore⟩
    | cons t middle =>
      cases hrest
      exact .inr ⟨middle, hbefore⟩

namespace Policy

/-! ## What settings ask for -/

namespace Setting

def size? : Setting → Option Nat
  | .maxSize n => some n
  | .lifetime _ => none

def limit? (kind : LifetimeKind) : Setting → Option Duration
  | .maxSize _ => none
  | .lifetime l => if l.kind = kind then some l.limit else none

theorem limit?_eq_none_or (s : Setting) : s.limit? .timeToLive = none ∨ s.limit? .timeToIdle = none := by
  rcases s with _ | _ | _
  · exact .inl rfl
  · exact .inr rfl
  · exact .inl rfl

/-- A size of zero, or a limit on life below a millisecond. -/
def TooSmall : Setting → Prop
  | .maxSize n => n = 0
  | .lifetime l => l.limit.nanos < shortestLifetime.nanos

end Setting

section
variable {settings before : List Setting} {p q : Policy}

/-- The last size that is asked for. -/
def lastSize (settings : List Setting) : Option Nat := (settings.filterMap Setting.size?).getLast?

/-- The last limit of this kind that is asked for. -/
def lastLimit (kind : LifetimeKind) (settings : List Setting) : Option Duration :=
  (settings.filterMap (Setting.limit? kind)).getLast?

theorem lastSize_concat (settings : List Setting) (s : Setting) :
    lastSize (settings ++ [s]) = s.size?.or (lastSize settings) := by
  cases s <;> simp [lastSize, Setting.size?]

theorem lastLimit_concat (kind : LifetimeKind) (settings : List Setting) (s : Setting) :
    lastLimit kind (settings ++ [s]) = (s.limit? kind).or (lastLimit kind settings) := by
  cases hlimit : s.limit? kind <;> simp [lastLimit, hlimit]

/-- What is wrong with a setting that is made after others. A limit that is too small is at fault even where
one of the other kind is set. -/
inductive Faulty (before : List Setting) : Setting → SetupError → Prop
  | zeroSize : Faulty before (.maxSize 0) .zeroMaxSize
  | short {l : Lifetime} :
      l.limit.nanos < shortestLifetime.nanos → Faulty before (.lifetime l) (.shortLifetime l.kind l.limit)
  | other {l : Lifetime} {present : Duration} :
      shortestLifetime.nanos ≤ l.limit.nanos → lastLimit l.kind.other before = some present →
        Faulty before (.lifetime l) (.otherLifetime l.kind present)

/-- No setting is at fault after those before it. -/
def Clean (settings : List Setting) : Prop :=
  ∀ before s after e, settings = before ++ s :: after → ¬ Faulty before s e

/-- The refusal tells the first setting that is at fault, and why. -/
def FirstFault (settings : List Setting) (r : Refusal) : Prop :=
  ∃ before s after, settings = before ++ s :: after ∧ Clean before ∧ r.index = before.length ∧
    Faulty before s r.error

/-- The policy has of each limit the last value that the settings give. -/
structure Holds (settings : List Setting) (p : Policy) : Prop where
  maxSize : p.maxSize = lastSize settings
  timeToLive : p.timeToLive = lastLimit .timeToLive settings
  timeToIdle : p.timeToIdle = lastLimit .timeToIdle settings

theorem Faulty.unique {s : Setting} {e e' : SetupError} (h : Faulty before s e) (h' : Faulty before s e') :
    e = e' := by
  cases h with
  | zeroSize =>
    cases h' with
    | zeroSize => rfl
  | short hshort =>
    cases h' with
    | short _ => rfl
    | other hlong _ => omega
  | other hlong hpresent =>
    cases h' with
    | short hshort => omega
    | other _ hpresent' =>
      rw [hpresent] at hpresent'
      cases hpresent'
      rfl

/-- What is too small is an argument that will not do; what conflicts is at odds with the state. -/
theorem Faulty.kind_eq {s : Setting} {e : SetupError} (h : Faulty before s e) :
    s.TooSmall ∧ e.kind = .invalidArgument ∨ ¬ s.TooSmall ∧ e.kind = .invalidState := by
  cases h with
  | zeroSize => exact .inl ⟨rfl, rfl⟩
  | short hshort => exact .inl ⟨hshort, rfl⟩
  | other hlong _ => exact .inr ⟨Nat.not_lt.mpr hlong, rfl⟩

theorem clean_nil : Clean [] := by
  intro before s after e h
  cases before <;> cases h

theorem clean_concat_iff {s : Setting} :
    Clean (settings ++ [s]) ↔ Clean settings ∧ ∀ e, ¬ Faulty settings s e := by
  constructor
  · intro h
    refine ⟨?_, fun e => h settings s [] e rfl⟩
    rintro before t after e rfl
    exact h before t (after ++ [s]) e (by simp)
  · rintro ⟨hclean, hs⟩ before t after e h
    rcases split_concat h with ⟨-, rfl, rfl⟩ | ⟨rest, -, hsettings⟩
    · exact hs e
    · exact hclean before t rest e hsettings

/-- A setting is without a fault if it is not too small and no limit of the other kind was asked for before. -/
theorem not_faulty_iff {s : Setting} :
    (∀ e, ¬ Faulty before s e) ↔
      ¬ s.TooSmall ∧ ∀ kind, s.limit? kind = none ∨ lastLimit kind.other before = none := by
  cases s with
  | maxSize n =>
    constructor
    · intro h
      refine ⟨fun hzero => ?_, fun _ => .inl rfl⟩
      obtain rfl : n = 0 := hzero
      exact h _ .zeroSize
    · rintro ⟨hsmall, -⟩ e ⟨⟩
      exact hsmall rfl
  | lifetime l =>
    constructor
    · intro h
      have hlong : ¬ l.limit.nanos < shortestLifetime.nanos := fun hshort => h _ (.short hshort)
      refine ⟨hlong, fun kind => ?_⟩
      by_cases hkind : l.kind = kind
      · subst hkind
        cases hother : lastLimit l.kind.other before with
        | none => exact .inr rfl
        | some present => exact absurd (.other (Nat.not_lt.mp hlong) hother) (h _)
      · exact .inl (if_neg hkind)
    · rintro ⟨hlong, hothers⟩ e hfault
      cases hfault with
      | short hshort => exact hlong hshort
      | other _ hpresent =>
        rcases hothers l.kind with hnone | hnone
        · simp [Setting.limit?] at hnone
        · rw [hpresent] at hnone
          cases hnone

/-- There is no fault in settings of which none is too small and which do not ask for limits of both kinds. -/
theorem clean_iff :
    Clean settings ↔ (∀ s ∈ settings, ¬ s.TooSmall) ∧
      (lastLimit .timeToLive settings = none ∨ lastLimit .timeToIdle settings = none) := by
  induction settings using List.reverseRecOn with
  | nil => exact ⟨fun _ => ⟨nofun, .inl rfl⟩, fun _ => clean_nil⟩
  | append_singleton settings s ih =>
    have hkinds : (∀ kind, s.limit? kind = none ∨ lastLimit kind.other settings = none) ↔
        (s.limit? .timeToLive = none ∨ lastLimit .timeToIdle settings = none) ∧
          (s.limit? .timeToIdle = none ∨ lastLimit .timeToLive settings = none) :=
      ⟨fun h => ⟨h .timeToLive, h .timeToIdle⟩, fun h kind => by cases kind; exacts [h.1, h.2]⟩
    -- one setting is of one kind, so it can only be at odds with those before it
    have hone := s.limit?_eq_none_or
    rw [clean_concat_iff, ih, not_faulty_iff, hkinds]
    simp only [List.mem_append, List.mem_singleton, lastLimit_concat, Option.or_eq_none_iff, or_imp, forall_and,
      forall_eq]
    grind

theorem firstFault_concat_iff {s : Setting} {r : Refusal} :
    FirstFault (settings ++ [s]) r ↔
      FirstFault settings r ∨ Clean settings ∧ r.index = settings.length ∧ Faulty settings s r.error := by
  constructor
  · rintro ⟨before, t, after, h, hclean, hindex, hfault⟩
    rcases split_concat h with ⟨-, rfl, rfl⟩ | ⟨rest, -, hsettings⟩
    · exact .inr ⟨hclean, hindex, hfault⟩
    · exact .inl ⟨before, t, rest, hsettings, hclean, hindex, hfault⟩
  · rintro (⟨before, t, after, rfl, hclean, hindex, hfault⟩ | ⟨hclean, hindex, hfault⟩)
    · exact ⟨before, t, after ++ [s], by simp, hclean, hindex, hfault⟩
    · exact ⟨settings, s, [], rfl, hclean, hindex, hfault⟩

theorem firstFault_nil (r : Refusal) : ¬ FirstFault [] r := by
  rintro ⟨before, s, after, h, -⟩
  cases before <;> cases h

/-- Settings without a fault come to an end before one that is at fault. -/
theorem Clean.prefix_of_faulty {before' after after' : List Setting} {s s' : Setting} {e : SetupError}
    (hclean : Clean before') (hsame : before' ++ s' :: after' = before ++ s :: after)
    (hfault : Faulty before s e) : before' <+: before := by
  refine (prefix_or_of_split hsame).resolve_right ?_
  rintro ⟨middle, hbefore⟩
  exact hclean before s middle e hbefore hfault

theorem FirstFault.unique {r r' : Refusal} (h : FirstFault settings r) (h' : FirstFault settings r') : r = r' := by
  obtain ⟨index, error⟩ := r
  obtain ⟨index', error'⟩ := r'
  obtain ⟨before, s, after, rfl, hclean, hindex, hfault⟩ := h
  obtain ⟨before', s', after', hsame, hclean', hindex', hfault'⟩ := h'
  have hprefix := hclean.prefix_of_faulty hsame hfault'
  have hprefix' := hclean'.prefix_of_faulty hsame.symm hfault
  have hbefore : before = before' := hprefix.eq_of_length_le hprefix'.length_le
  subst hbefore
  cases List.append_cancel_left hsame
  cases hindex.trans hindex'.symm
  cases hfault.unique hfault'
  rfl

theorem Clean.not_firstFault (hclean : Clean settings) (r : Refusal) : ¬ FirstFault settings r := by
  rintro ⟨before, s, after, hsplit, -, -, hfault⟩
  exact hclean before s after r.error hsplit hfault

/-! ## Making settings -/

theorem timeToLive_eq_none_or (p : Policy) : p.timeToLive = none ∨ p.timeToIdle = none := by
  unfold timeToLive timeToIdle
  rcases p.lifetime with _ | _ | _ <;> simp

/-- The limit on life of a kind, if it is set. -/
def limit (p : Policy) : LifetimeKind → Option Duration
  | .timeToLive => p.timeToLive
  | .timeToIdle => p.timeToIdle

theorem conflict_eq (p : Policy) (l : Lifetime) :
    (p.conflict l).map Lifetime.limit = p.limit l.kind.other := by
  unfold conflict limit timeToLive timeToIdle
  rcases p.lifetime with _ | present | present <;> cases l <;> rfl

theorem Holds.limit_eq (h : Holds settings p) (kind : LifetimeKind) : p.limit kind = lastLimit kind settings := by
  cases kind with
  | timeToLive => exact h.timeToLive
  | timeToIdle => exact h.timeToIdle

theorem holds_unlimited : Holds [] unlimited := ⟨rfl, rfl, rfl⟩

theorem lifetime_eq_map_or (p : Policy) :
    p.lifetime = (p.timeToLive.map .timeToLive).or (p.timeToIdle.map .timeToIdle) := by
  unfold timeToLive timeToIdle
  rcases p.lifetime with _ | _ | _ <;> rfl

theorem ext_limits (hsize : p.maxSize = q.maxSize) (hlifetime : p.lifetime = q.lifetime) : p = q := by
  cases p
  cases q
  cases hsize
  cases hlifetime
  rfl

/-- A policy is known from its limits. -/
theorem Holds.unique (h : Holds settings p) (h' : Holds settings q) : p = q := by
  refine ext_limits (h.maxSize.trans h'.maxSize.symm) ?_
  rw [lifetime_eq_map_or p, lifetime_eq_map_or q, h.timeToLive, h.timeToIdle, h'.timeToLive, h'.timeToIdle]

/-- A setting is refused just if it is at fault. -/
theorem Holds.set (h : Holds before p) (s : Setting) :
    (∃ q, p.set s = .ok q ∧ Holds (before ++ [s]) q ∧ ∀ e, ¬ Faulty before s e) ∨
      ∃ e, p.set s = .error e ∧ Faulty before s e := by
  cases s with
  | maxSize n =>
    by_cases hn : 0 < n
    · refine .inl ⟨_, dif_pos hn, ⟨?_, ?_, ?_⟩, ?_⟩
      · simp [lastSize_concat, Setting.size?]
      · rw [lastLimit_concat]
        exact h.timeToLive
      · rw [lastLimit_concat]
        exact h.timeToIdle
      · rintro e ⟨⟩
        omega
    · obtain rfl : n = 0 := by omega
      exact .inr ⟨_, rfl, .zeroSize⟩
  | lifetime l =>
    by_cases hlong : shortestLifetime.nanos ≤ l.limit.nanos
    · cases hconflict : p.conflict l with
      | some present =>
        refine .inr ⟨.otherLifetime l.kind present.limit, ?_, .other hlong ?_⟩
        · simp only [Policy.set, dif_pos hlong, hconflict]
        · rw [← h.limit_eq, ← conflict_eq, hconflict]
          rfl
      | none =>
        have hother : lastLimit l.kind.other before = none := by
          rw [← h.limit_eq, ← conflict_eq, hconflict]
          rfl
        have hkept : ∀ kept ∈ some l, shortestLifetime.nanos ≤ kept.limit.nanos := by
          rintro _ ⟨⟩
          exact hlong
        refine .inl ⟨{ p with lifetime := some l, shortest_le := hkept }, ?_, ⟨?_, ?_, ?_⟩, ?_⟩
        · simp only [Policy.set, dif_pos hlong, hconflict]
        · rw [lastSize_concat]
          exact h.maxSize
        · rw [lastLimit_concat]
          cases l with
          | timeToLive d => rfl
          | timeToIdle d => exact hother.symm
        · rw [lastLimit_concat]
          cases l with
          | timeToLive d => exact hother.symm
          | timeToIdle d => rfl
        · intro e hfault
          cases hfault with
          | short hshort => omega
          | other _ hpresent =>
            rw [hother] at hpresent
            cases hpresent
    · refine .inr ⟨.shortLifetime l.kind l.limit, ?_, .short (by omega)⟩
      simp only [Policy.set, dif_neg hlong]

/-- Settings are made up to the first one that is at fault. -/
theorem Holds.setAll (h : Holds before p) (hclean : Clean before) (rest : List Setting) :
    (∃ q, setAll before.length p rest = .ok q ∧ Holds (before ++ rest) q ∧ Clean (before ++ rest)) ∨
      ∃ r, setAll before.length p rest = .error r ∧ FirstFault (before ++ rest) r := by
  induction rest generalizing before p with
  | nil => exact .inl ⟨p, rfl, by simpa using h, by simpa using hclean⟩
  | cons s rest ih =>
    rcases h.set s with ⟨q, hset, hholds, hnone⟩ | ⟨e, hset, hfault⟩
    · have hrest := ih hholds (clean_concat_iff.mpr ⟨hclean, hnone⟩)
      rw [List.append_assoc, List.length_append] at hrest
      simp only [Policy.setAll, hset]
      exact hrest
    · exact .inr ⟨⟨before.length, e⟩, by simp only [Policy.setAll, hset],
        before, s, rest, rfl, hclean, rfl, hfault⟩

theorem ofSettings_cases (settings : List Setting) :
    (∃ p, ofSettings settings = .ok p ∧ Holds settings p ∧ Clean settings) ∨
      ∃ r, ofSettings settings = .error r ∧ FirstFault settings r :=
  holds_unlimited.setAll clean_nil settings

theorem ofSettings_eq_ok_iff : ofSettings settings = .ok p ↔ Clean settings ∧ Holds settings p := by
  rcases ofSettings_cases settings with ⟨q, hok, hholds, hclean⟩ | ⟨r, herror, hfault⟩
  · rw [hok]
    constructor
    · intro h
      cases h
      exact ⟨hclean, hholds⟩
    · rintro ⟨-, h⟩
      rw [hholds.unique h]
  · rw [herror]
    exact ⟨nofun, fun h => absurd hfault (h.1.not_firstFault r)⟩

theorem ofSettings_eq_error_iff {r : Refusal} : ofSettings settings = .error r ↔ FirstFault settings r := by
  rcases ofSettings_cases settings with ⟨q, hok, -, hclean⟩ | ⟨r', herror, hfault⟩
  · rw [hok]
    exact ⟨nofun, fun h => absurd h (hclean.not_firstFault r)⟩
  · rw [herror]
    constructor
    · intro h
      cases h
      exact hfault
    · intro h
      rw [hfault.unique h]

/-! ## What depends on a limit -/

/-- Whatever asks whether use prolongs life, or when life ends, gets answers that go together. -/
structure Coherent (K V : Type) [DecidableEq K] (p : Policy) : Prop where
  one_limit : p.timeToLive = none ∨ p.timeToIdle = none
  counts_writing (d : Duration) : p.lifetime = some (.timeToLive d) ↔ p.timeToLive = some d
  counts_use (d : Duration) : p.lifetime = some (.timeToIdle d) ↔ p.timeToIdle = some d
  /-- the store of a cache with this policy, whatever has happened to it -/
  order {persistent : Bool} {j : Journal K V} {m : Manager K V} :
    Manager.Run (Manager.start p persistent) j m → (m.contents.store.order = .access ↔ p.timeToIdle.isSome)
  /-- told from an entry that was used after it was written -/
  sortKey {e : Entry K V} : e.created ≠ e.accessed → (p.sortKey e = e.accessed ↔ p.timeToIdle.isSome)
  since {l : Lifetime} (e : Entry K V) : p.lifetime = some l → l.since e = p.sortKey e
  span {l : Lifetime} : p.lifetime = some l →
    1 ≤ l.limit.toSpan.toInt ∧ l.limit.toSpan.toInt = min (2 ^ 63 - 1) (l.limit.nanos / 1000000 : Int)

theorem order_eq_access_iff : p.order = .access ↔ p.timeToIdle.isSome := by
  unfold order
  cases p.timeToIdle <;> simp

/-- A limit on life that can be set is not lost in whole milliseconds. -/
theorem one_le_span {l : Lifetime} (h : p.lifetime = some l) : 1 ≤ l.limit.toSpan.toInt := by
  have hlong : 1000000 ≤ l.limit.nanos := p.shortest_le l h
  have hmillis : 1 ≤ l.limit.wholeMillis := Nat.div_pos hlong (by decide)
  rw [Duration.toInt_toSpan]
  omega

theorem lifetime_eq_live_iff {d : Duration} : p.lifetime = some (.timeToLive d) ↔ p.timeToLive = some d := by
  unfold timeToLive
  rcases p.lifetime with _ | _ | _ <;> simp

theorem lifetime_eq_idle_iff {d : Duration} : p.lifetime = some (.timeToIdle d) ↔ p.timeToIdle = some d := by
  unfold timeToIdle
  rcases p.lifetime with _ | _ | _ <;> simp

theorem coherent (K V : Type) [DecidableEq K] (p : Policy) : p.Coherent K V where
  one_limit := p.timeToLive_eq_none_or
  counts_writing _ := lifetime_eq_live_iff
  counts_use _ := lifetime_eq_idle_iff
  order hrun := by
    rw [hrun.sound.order]
    exact order_eq_access_iff
  sortKey hused := by
    unfold Policy.sortKey
    cases p.timeToIdle <;> simp [hused]
  since e h := since_eq_sortKey h e
  span h := by
    refine ⟨one_le_span h, ?_⟩
    rw [Duration.toInt_toSpan, Duration.wholeMillis]
    omega

/-! ## All settings -/

/-- What comes of settings made one after another. -/
structure Settled (K V : Type) [DecidableEq K] (settings : List Setting) : Prop where
  built_or_refused : (∃ p, ofSettings settings = .ok p) ∨ ∃ r, ofSettings settings = .error r
  built_iff (p : Policy) : ofSettings settings = .ok p ↔ Clean settings ∧ Holds settings p
  clean_iff : Clean settings ↔ (∀ s ∈ settings, ¬ s.TooSmall) ∧
    (lastLimit .timeToLive settings = none ∨ lastLimit .timeToIdle settings = none)
  refused_iff (r : Refusal) : ofSettings settings = .error r ↔ FirstFault settings r
  /-- what is too small is refused for that, even if it is at odds with an earlier setting too -/
  kind {r : Refusal} : ofSettings settings = .error r →
    ∃ s, settings[r.index]? = some s ∧
      (s.TooSmall ∧ r.error.kind = .invalidArgument ∨ ¬ s.TooSmall ∧ r.error.kind = .invalidState)
  coherent {p : Policy} : ofSettings settings = .ok p → p.Coherent K V

theorem FirstFault.kind_eq {r : Refusal} (h : FirstFault settings r) :
    ∃ s, settings[r.index]? = some s ∧
      (s.TooSmall ∧ r.error.kind = .invalidArgument ∨ ¬ s.TooSmall ∧ r.error.kind = .invalidState) := by
  obtain ⟨before, s, after, rfl, -, hindex, hfault⟩ := h
  refine ⟨s, ?_, hfault.kind_eq⟩
  rw [hindex]
  simp

/-- Every list of settings makes the policy that it describes, and whose parts go together, or is refused at its
first fault. -/
theorem settled (K V : Type) [DecidableEq K] (settings : List Setting) : Settled K V settings where
  built_or_refused := by
    rcases ofSettings_cases settings with ⟨p, hok, -⟩ | ⟨r, herror, -⟩
    · exact .inl ⟨p, hok⟩
    · exact .inr ⟨r, herror⟩
  built_iff _ := ofSettings_eq_ok_iff
  clean_iff := clean_iff
  refused_iff _ := ofSettings_eq_error_iff
  kind h := (ofSettings_eq_error_iff.mp h).kind_eq
  coherent {p} _ := p.coherent K V

/-- A limit on idling below a millisecond after a limit since writing: it is the size of it that is refused. -/
example : ofSettings [.lifetime (.timeToLive (.ofMillis 5)), .lifetime (.timeToIdle ⟨999999⟩)] =
    .error ⟨1, .shortLifetime .timeToIdle ⟨999999⟩⟩ := by decide

end

end Policy

end ExpiringCache
