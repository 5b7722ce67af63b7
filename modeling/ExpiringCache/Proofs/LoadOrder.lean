import ExpiringCache.Proofs.ExpiredFirst
import Mathlib.Data.List.DropRight

/-!
What a load makes of a snapshot, whichever policy it was saved under. Its entries are put in the order of the
policy in force, so that what has expired stands first, and goes first where there are too many. Main
statement: the load gives all of them in this order or, over the limit on the size, the newest that live.
-/
namespace ExpiringCache
set_option autoImplicit false

/-! ## Stable sorting -/

namespace Entries
variable {K V : Type} {p : Policy} {snapshot entries : List (Entry K V)}

/-- The entries of a snapshot in the order of the policy, those of one instant as they stand in the
snapshot. -/
structure StablySorted (p : Policy) (snapshot entries : List (Entry K V)) : Prop where
  inOrder : p.InOrder entries
  stable : ∀ t : Instant,
    (entries.filter fun e => p.sortKey e = t) = snapshot.filter fun e => p.sortKey e = t

theorem stablySorted_sorted (p : Policy) (snapshot : List (Entry K V)) :
    StablySorted p snapshot (sorted p snapshot) := by
  refine ⟨inOrder_sorted p snapshot, fun t => ?_⟩
  have hlevel : (snapshot.filter fun e => p.sortKey e = t).Pairwise
      fun a b => decide (p.sortKey a ≤ p.sortKey b) = true := by
    refine List.pairwise_of_forall_mem_list fun a ha b hb => ?_
    have hat : p.sortKey a = t := by simpa using (List.mem_filter.mp ha).2
    have hbt : p.sortKey b = t := by simpa using (List.mem_filter.mp hb).2
    rw [hat, hbt]
    exact decide_eq_true (Int64.le_refl t)
  have hsub : (snapshot.filter fun e => p.sortKey e = t).Sublist (sorted p snapshot) :=
    List.sublist_mergeSort
      (fun a b c hab hbc => by
        simp only [decide_eq_true_eq] at hab hbc ⊢
        exact Int64.le_trans hab hbc)
      (fun a b => by simpa using Int64.le_total (p.sortKey a) (p.sortKey b))
      hlevel List.filter_sublist
  have hwithin := hsub.filter fun e => p.sortKey e = t
  rw [List.filter_filter] at hwithin
  simp only [Bool.and_self] at hwithin
  exact (hwithin.eq_of_length ((List.mergeSort_perm snapshot _).filter _).length_eq.symm).symm

/-- The first of two lists in order that agree at every instant is no older than that of the other. -/
theorem sortKey_le_head {x y : Entry K V} {as bs : List (Entry K V)} (hb : p.InOrder (y :: bs))
    (h : ∀ t : Instant, ((x :: as).filter fun e => p.sortKey e = t) =
      (y :: bs).filter fun e => p.sortKey e = t) : p.sortKey y ≤ p.sortKey x := by
  have hmem : x ∈ (y :: bs).filter fun e => p.sortKey e = p.sortKey x := by
    rw [← h (p.sortKey x)]
    exact List.mem_filter.mpr ⟨List.mem_cons_self, decide_eq_true rfl⟩
  rcases List.mem_cons.mp (List.mem_filter.mp hmem).1 with rfl | hlater
  · exact Int64.le_refl _
  · exact (List.pairwise_cons.mp hb).1 x hlater

/-- A list in order is known from what it has at each instant. -/
theorem eq_of_inOrder {as bs : List (Entry K V)} (ha : p.InOrder as) (hb : p.InOrder bs)
    (h : ∀ t : Instant, (as.filter fun e => p.sortKey e = t) = bs.filter fun e => p.sortKey e = t) :
    as = bs := by
  induction as generalizing bs with
  | nil =>
    cases bs with
    | nil => rfl
    | cons y bs => simpa using h (p.sortKey y)
  | cons x as ih =>
    cases bs with
    | nil => simpa using h (p.sortKey x)
    | cons y bs =>
      have hsame : p.sortKey x = p.sortKey y :=
        Int64.le_antisymm (sortKey_le_head ha fun t => (h t).symm) (sortKey_le_head hb h)
      have hlevel := h (p.sortKey y)
      rw [List.filter_cons_of_pos (by simp [hsame]), List.filter_cons_of_pos (by simp)] at hlevel
      obtain ⟨rfl, -⟩ := List.cons.inj hlevel
      have hrest : ∀ t : Instant, (as.filter fun e => p.sortKey e = t) =
          bs.filter fun e => p.sortKey e = t := by
        intro t
        have ht := h t
        by_cases hx : p.sortKey x = t
        · rw [List.filter_cons_of_pos (by simp [hx]), List.filter_cons_of_pos (by simp [hx])] at ht
          exact (List.cons.inj ht).2
        · rw [List.filter_cons_of_neg (by simp [hx]), List.filter_cons_of_neg (by simp [hx])] at ht
          exact ht
      rw [ih (List.pairwise_cons.mp ha).2 (List.pairwise_cons.mp hb).2 hrest]

theorem StablySorted.eq_sorted (h : StablySorted p snapshot entries) : entries = sorted p snapshot := by
  have hsorted := stablySorted_sorted p snapshot
  exact eq_of_inOrder h.inOrder hsorted.inOrder fun t => (h.stable t).trans (hsorted.stable t).symm

end Entries

/-! ## The load -/

namespace Manager
variable {K V : Type} [DecidableEq K] {p : Policy} {persistent : Bool} {m m' : Manager K V}
  {j : Journal K V} {snapshot : List (Entry K V)} {now : Instant}

/-- Before the load nothing has been signalled. -/
theorem Run.unseen_of_loading (h : Run (Manager.start p persistent : Manager K V) j m)
    (hphase : m.phase = .loading) : m.unseen = false := by
  refine h.induction (P := fun _ m => m.phase = .loading → m.unseen = false) (fun _ => rfl) ?_ hphase
  intro j m m' occs _ ih hmoves hphase
  cases hmoves with
  | cancel => exact ih hphase
  | act action hloaded => exact absurd hphase hloaded
  | load | wake | elapse | mark | save | finish | drain | announceDraining | announceClosed =>
    cases hphase
  | skip last => cases last <;> cases hphase
  | record last => cases last <;> cases hphase

theorem Run.load_eq (hrun : Run (Manager.start p persistent) j m)
    (hload : m.step? (.load snapshot now) = some m') :
    m'.policy = p ∧ m'.contents = (Contents.load p now snapshot).contents ∧
      m'.unseen = (Contents.load p now snapshot).signalled := by
  have hpolicy : m.policy = p := hrun.policy_eq.1
  simp only [step?] at hload
  split at hload
  · rename_i hphase
    cases hload
    have hunseen := hrun.unseen_of_loading hphase
    subst hpolicy
    exact ⟨rfl, rfl, by simp [accept, hunseen]⟩
  · cases hload

/-- What a cache holds right after a load at `now`, where `sorted` is the snapshot in order: all of it, or of
what has not expired as much as the limit on the size allows, the newest. Only in the second case is anything
counted or signalled. -/
structure LoadsInOrder (p : Policy) (now : Instant) (sorted : List (Entry K V)) (m : Manager K V) :
    Prop where
  whole : (∀ limit, p.maxSize = some limit → sorted.length ≤ limit) →
    m.contents.entries = sorted ∧ m.contents.stats = {} ∧ m.unseen = false
  cut : ∀ limit, p.maxSize = some limit → limit < sorted.length →
    m.contents.entries = (p.unexpired now sorted).rtake (min limit (p.unexpired now sorted).length) ∧
      m.contents.stats =
        { expirations := sorted.countP fun e => p.isExpired e now
          evictions := (p.unexpired now sorted).length - limit } ∧
      m.unseen = true

/-- A snapshot in which no key occurs twice is loaded in order, whatever the dates in it and whatever policy
it was saved under. -/
theorem run_loadsInOrder {sorted : List (Entry K V)} (hrun : Run (Manager.start p persistent) j m)
    (hload : m.step? (.load snapshot now) = some m') (hkeys : (Entries.keys snapshot).Nodup)
    (hsorted : Entries.StablySorted p snapshot sorted) : LoadsInOrder p now sorted m' := by
  obtain ⟨-, hcontents, hunseen⟩ := hrun.load_eq hload
  have hrestored : (Contents.restored p snapshot).entries = sorted :=
    (Contents.entries_restored p hkeys).trans hsorted.eq_sorted.symm
  refine ⟨fun hfits => ?_, fun limit hlimit hover => ?_⟩
  · have hwithin : Entries.Within p (Contents.restored p snapshot).entries := hrestored.symm ▸ hfits
    have htrim := Contents.trimToSize_of_within hwithin now
    have hwhole : (Contents.load p now snapshot).contents = Contents.restored p snapshot :=
      congrArg Prod.snd htrim
    have hsilent : (Contents.load p now snapshot).signalled = false :=
      congrArg (fun trimmed : Nat × Contents K V => decide (0 < trimmed.1)) htrim
    rw [hcontents, hunseen, hwhole, hsilent]
    exact ⟨hrestored, rfl, rfl⟩
  · have hcut : (Contents.load p now snapshot).contents ≠ Contents.restored p snapshot := by
      intro hwhole
      have hwithin := Contents.within_load p now snapshot limit hlimit
      rw [hwhole, hrestored] at hwithin
      omega
    have hsignal : (Contents.load p now snapshot).signalled = true := by
      rw [← Bool.not_eq_false]
      intro hsilent
      exact hcut (congrArg Prod.snd (Contents.load_of_unsignalled hsilent))
    rw [hcontents, hunseen]
    rcases Contents.expiredFirst_load (p := p) now hkeys with
      hwhole | ⟨limit', evicted, hlimit', -, -, hlive, hneeded, hstats⟩
    · exact absurd hwhole hcut
    rw [hlimit] at hlimit'
    cases hlimit'
    rw [hrestored] at hlive hneeded hstats
    refine ⟨?_, ?_, hsignal⟩
    · have hdropped : (p.unexpired now sorted).length -
          min limit (p.unexpired now sorted).length = evicted.length := by omega
      rw [List.rtake, hdropped, hlive, List.drop_left]
    · rw [hstats, hneeded]
      simp [Contents.restored, Stats.expire, Stats.evict]

/-- Four entries as a cache saves them where writing decides the order. -/
def fourEntries : List (Entry Nat Nat) :=
  [⟨1, 10, 0, 15⟩, ⟨2, 20, 1, 3⟩, ⟨3, 30, 2, 40⟩, ⟨4, 40, 5, 12⟩]

theorem sorted_fourEntries : Entries.sorted smallPolicy fourEntries =
    [⟨2, 20, 1, 3⟩, ⟨4, 40, 5, 12⟩, ⟨1, 10, 0, 15⟩, ⟨3, 30, 2, 40⟩] :=
  Entries.sorted_eq_of_perm (by decide) (by decide) (by decide)

/-- They are loaded where use decides it: one has expired, one is from the future, and there are too many. -/
theorem run_loadsInOrder_of_four :
    ∃ (j : Journal Nat Nat) (m m' : Manager Nat Nat),
      Run (Manager.start smallPolicy true) j m ∧ m.step? (.load fourEntries 20) = some m' ∧
        (Entries.keys fourEntries).Nodup ∧
        Entries.StablySorted smallPolicy fourEntries (Entries.sorted smallPolicy fourEntries) ∧
        LoadsInOrder smallPolicy 20 (Entries.sorted smallPolicy fourEntries) m' ∧
        m'.contents.entries = [⟨1, 10, 0, 15⟩, ⟨3, 30, 2, 40⟩] := by
  have hstart : Run (Manager.start smallPolicy true : Manager Nat Nat) [] _ := Run.nil
  have hcancelled := hstart.step .cancel rfl
  have hsorted := Entries.stablySorted_sorted smallPolicy fourEntries
  obtain ⟨m', hload⟩ : ∃ m', ({ Manager.start smallPolicy true with cancelled := true } :
      Manager Nat Nat).step? (.load fourEntries 20) = some m' := ⟨_, rfl⟩
  have hloads := run_loadsInOrder hcancelled hload (by decide) hsorted
  refine ⟨_, _, m', hcancelled, hload, by decide, hsorted, hloads, ?_⟩
  rw [(hloads.cut 2 rfl (by rw [sorted_fourEntries]; decide)).1, sorted_fourEntries]
  decide

end Manager

end ExpiringCache
