import ExpiringCache.Proofs.EagerCache
import ExpiringCache.Proofs.SavedFile
import ExpiringCache.Proofs.SizeLimit

/-!
A cache that is loaded from what another one saved. While the clock of the first one did not go back, the
second one holds the same entries in the same order, and nobody who asks for keys can tell that there was
an interruption.
-/
namespace ExpiringCache
set_option autoImplicit false

open Instant (Ascending latest)

/-! ## Loading what is in order -/

namespace Contents
variable {K V : Type} {p : Policy} {t : Instant} {entries : List (Entry K V)}

theorem sorted_of_inOrder (h : p.InOrder entries) : Entries.sorted p entries = entries :=
  List.mergeSort_of_pairwise (h.imp fun hab => decide_eq_true hab)

variable [DecidableEq K]

theorem entries_restored_of_inOrder (hnodup : (Entries.keys entries).Nodup) (h : p.InOrder entries) :
    (restored p entries).entries = entries :=
  (entries_restored p hnodup).trans (sorted_of_inOrder h)

/-- Entries that a cache may hold are loaded as they are. -/
theorem trimToSize_restored (h : Entries.Ordered p t entries) (hwithin : Entries.Within p entries)
    (now : Instant) : (restored p entries).trimToSize p now = (0, restored p entries) := by
  have hentries := entries_restored_of_inOrder h.nodup h.inOrder
  unfold trimToSize
  split
  · rfl
  · rename_i limit hlimit
    have hsize : (restored p entries).size ≤ limit := by
      rw [size_eq, hentries]
      exact hwithin limit hlimit
    rw [if_pos hsize]

end Contents

/-! ## Going on -/

namespace Manager
variable {K V : Type} [DecidableEq K] {p : Policy} {m : Manager K V} {j : Journal K V}

/-- A cache loaded from `saved` goes on as `m` would: the load gives the entries of `m`, gives up none and
signals nothing, and the same operations find and leave the same from then on. -/
structure Resumes (p : Policy) (m : Manager K V) (saved : List (Entry K V)) (now : Instant) : Prop where
  entries : (Contents.load p now saved).contents.entries = m.contents.entries
  uncut : (Contents.restored p saved).trimToSize p now = (0, Contents.restored p saved)
  silent : (Contents.load p now saved).signalled = false
  onwards : ∀ (persistent : Bool) (j₁ j₂ : Journal K V) (m₁ m₂ : Manager K V),
    Run m j₁ m₁ → Run (Manager.start p persistent) j₂ m₂ → j₂.loads = [(saved, now)] →
      j₂.actions = j₁.actions →
        j₂.answers = j₁.answers ∧ m₂.contents.entries = m₁.contents.entries ∧
          m₂.contents.size = m₁.contents.size

theorem resumes_of_ordered {loaded : List (Entry K V)} {t : Instant}
    (hfollows : Follows p loaded j m) (hordered : Entries.Ordered p t m.contents.entries)
    (hwithin : Entries.Within p m.contents.entries) (now : Instant) :
    Resumes p m m.contents.entries now := by
  have huncut := Contents.trimToSize_restored hordered hwithin now
  have hload : (Contents.load p now m.contents.entries).contents =
      ((Contents.restored p m.contents.entries).trimToSize p now).2 := rfl
  have hsignal : (Contents.load p now m.contents.entries).signalled =
      decide (0 < ((Contents.restored p m.contents.entries).trimToSize p now).1) := rfl
  have hentries : (Contents.load p now m.contents.entries).contents.entries = m.contents.entries := by
    rw [hload, huncut]
    exact Contents.entries_restored_of_inOrder hordered.nodup hordered.inOrder
  refine ⟨hentries, huncut, by rw [hsignal, huncut]; rfl, ?_⟩
  intro persistent j₁ j₂ m₁ m₂ hgoesOn hrestarted hloads hactions
  have hfirst := hgoesOn.follows hfollows.loaded (by rw [hfollows.policy]; exact hfollows.sound)
  rw [hfollows.policy] at hfirst
  rcases hrestarted.loaded_once with hunloaded | ⟨snapshot, now', hloads', hsecond⟩
  · rw [hunloaded.loads] at hloads
    cases hloads
  · rw [hloads] at hloads'
    cases hloads'
    rw [hentries] at hsecond
    have hend : m₂.contents.entries = m₁.contents.entries := by
      rw [hsecond.entries, hfirst.entries, hactions]
    refine ⟨?_, hend, ?_⟩
    · rw [hsecond.answers, hfirst.answers, hactions]
    · rw [Contents.size_eq, Contents.size_eq, hend]

/-! ## By way of a file -/

/-- What a cache hands over at any time, its last copy included, and what is then saved in a file makes
another cache that goes on in its place. -/
theorem run_resumes {p : Policy} {persistent : Bool} {m : Manager String String}
    {j before after : Journal String String} {snapshot copy : List (Entry String String)}
    {now : Instant} {f : SnapshotFile} {t t' : Files.Tree}
    (hrun : Run (Manager.start p persistent) j m) (hj : j = before ++ .saveBegan copy :: after)
    (hload : (snapshot, now) ∈ before.loads) (hkeys : (Entries.keys snapshot).Nodup)
    (hpast : ∀ e ∈ snapshot, e.created ≤ now ∧ e.accessed ≤ now)
    (hclock : Ascending now (Entries.readings before.actions))
    (hsave : f.save (some copy) t = (.ok (), t')) (layout : Snapshot.Layout) (restart : Instant) :
    ∃ atCopy : Manager String String,
      Run (Manager.start p persistent) before atCopy ∧ atCopy.contents.entries = copy ∧
        ({ f with layout } : SnapshotFile).read t' = (.ok (some copy), t') ∧
        Resumes p atCopy copy restart := by
  obtain ⟨atCopy, last, hbefore, -, -, rfl⟩ := hrun.at_save hj
  have hread := SnapshotFile.read_of_save hsave layout
  have hordered := hbefore.ordered hload hkeys hpast hclock
  have hresumes := resumes_of_ordered (hbefore.follows_load hload) hordered hbefore.within restart
  exact ⟨atCopy, hbefore, rfl, hread, hresumes⟩

theorem save_in_root (entries : List (Entry String String)) :
    ∃ t', (⟨⟨["snapshot.json"]⟩, .indented⟩ : SnapshotFile).save (some entries) {} = (.ok (), t') := by
  exact ⟨_, rfl⟩

/-- Two entries are loaded, one is read, a third one is written, and the cache is shut down. -/
theorem run_resumes_of_two :
    ∃ (j before after : Journal String String) (m : Manager String String)
      (copy : List (Entry String String)) (t' : Files.Tree),
      Run (Manager.start smallPolicy true) j m ∧ j = before ++ .saveBegan copy :: after ∧
        before.life = .draining ∧
        ([⟨"a", "x", 0, 5⟩, ⟨"b", "y", 0, 0⟩], 6) ∈ before.loads ∧
        Ascending 6 (Entries.readings before.actions) ∧
        (⟨⟨["snapshot.json"]⟩, .indented⟩ : SnapshotFile).save (some copy) {} = (.ok (), t') ∧
        ∃ atCopy : Manager String String,
          Run (Manager.start smallPolicy true) before atCopy ∧ atCopy.contents.entries = copy ∧
            (⟨⟨["snapshot.json"]⟩, .compact⟩ : SnapshotFile).read t' = (.ok (some copy), t') ∧
            Resumes smallPolicy atCopy copy 20 := by
  have hstart : Run (Manager.start smallPolicy true : Manager String String) [] _ := Run.nil
  have hloaded := hstart.step (.load [⟨"a", "x", 0, 5⟩, ⟨"b", "y", 0, 0⟩] 6) rfl
  have hread := hloaded.step (.act (.get "b" 8)) rfl
  have hwritten := hread.step (.act (.put "c" "z" 9)) rfl
  have hstopped := (hwritten.step .cancel rfl).step .drain rfl
  have hdraining := hstopped.step .announce rfl
  have hrun := hdraining.step .copy rfl
  have hclock : Ascending 6 [8, 9] := by decide
  have hkeys : (Entries.keys ([⟨"a", "x", 0, 5⟩, ⟨"b", "y", 0, 0⟩] :
      List (Entry String String))).Nodup := by decide
  have hpast : ∀ e ∈ ([⟨"a", "x", 0, 5⟩, ⟨"b", "y", 0, 0⟩] : List (Entry String String)),
      e.created ≤ 6 ∧ e.accessed ≤ 6 := by decide
  obtain ⟨t', hsave⟩ := save_in_root _
  exact ⟨_, _, [], _, _, t', hrun, rfl, rfl, List.mem_singleton.mpr rfl, hclock, hsave,
    run_resumes hrun rfl (List.mem_singleton.mpr rfl) hkeys hpast hclock hsave .compact 20⟩

end Manager

end ExpiringCache
