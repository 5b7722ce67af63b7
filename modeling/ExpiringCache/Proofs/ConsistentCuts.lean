import ExpiringCache.Proofs.CriticalSection
import ExpiringCache.Proofs.SizeLimit
import Mathlib.Data.List.DropRight

/-!
Copies as consistent cuts. Operations, warnings, saving and a shutdown may interleave in any way, and an
operation may take many stages. Main statement: each copy that is handed over is what the cache held between
two operations, never in the middle of one; a later copy misses nothing that an earlier one had; no
operation is missing whose signal had been seen; and no copy is larger than the policy allows.
-/
namespace ExpiringCache
set_option autoImplicit false

namespace Contents
variable {K V : Type} [DecidableEq K]

def after (p : Policy) (c : Contents K V) (actions : List (Action K V)) : Contents K V :=
  actions.foldl (fun c action => (c.apply p action).contents) c

theorem after_concat (p : Policy) (c : Contents K V) (actions : List (Action K V)) (action : Action K V) :
    c.after p (actions ++ [action]) = ((c.after p actions).apply p action).contents :=
  List.foldl_concat ..

theorem sound_after {p : Policy} {c : Contents K V} (h : c.Sound p) (actions : List (Action K V)) :
    (c.after p actions).Sound p := by
  induction actions using List.reverseRecOn with
  | nil => exact h
  | append_singleton actions action ih =>
    rw [after_concat]
    exact sound_apply action ih

theorem entries_after {p : Policy} {c : Contents K V} (h : c.Sound p) (actions : List (Action K V)) :
    (c.after p actions).entries = (runAll (Entries.apply p) c.entries actions).2 := by
  induction actions using List.reverseRecOn with
  | nil => rfl
  | append_singleton actions action ih =>
    rw [after_concat, runAll_concat, ← ih, ← entries_apply action (sound_after h actions)]

end Contents

/-! ## Copies in a journal -/

/-- Whether every signal so far counts as seen from here on. -/
def Occurrence.isNoticed {K V : Type} : Occurrence K V → Bool
  | .noticed => true
  | _ => false

namespace Journal
variable {K V : Type}

/-- What came before the signals were last seen. -/
def seen (j : Journal K V) : Journal K V := j.rdropWhile fun o => !o.isNoticed

theorem actions_seen_prefix (j : Journal K V) : j.seen.actions <+: j.actions :=
  List.IsPrefix.filterMap _ (List.rdropWhile_prefix _ _)

/-- For each copy, how many operations had been done before it, if `done` operations came before. -/
def cutsFrom (done : Nat) : Journal K V → List Nat
  | [] => []
  | .performed _ _ :: later => cutsFrom (done + 1) later
  | .saveBegan _ :: later => done :: cutsFrom done later
  | _ :: later => cutsFrom done later

def cuts (j : Journal K V) : List Nat := cutsFrom 0 j

theorem le_of_mem_cutsFrom {done n : Nat} {j : Journal K V} (h : n ∈ cutsFrom done j) : done ≤ n := by
  induction j generalizing done with
  | nil => cases h
  | cons o later ih =>
    cases o with
    | performed => exact Nat.le_of_succ_le (ih h)
    | saveBegan =>
      rcases List.mem_cons.mp h with rfl | hlater
      · exact Nat.le_refl n
      · exact ih hlater
    | published | loaded | cancelled | noticed | saveEnded | recorded => exact ih h

theorem pairwise_cutsFrom (done : Nat) (j : Journal K V) : (cutsFrom done j).Pairwise (· ≤ ·) := by
  induction j generalizing done with
  | nil => exact .nil
  | cons o later ih =>
    cases o with
    | performed => exact ih (done + 1)
    | saveBegan => exact .cons (fun n hn => le_of_mem_cutsFrom hn) (ih done)
    | published | loaded | cancelled | noticed | saveEnded | recorded => exact ih done

theorem cutsFrom_append (done : Nat) (i j : Journal K V) :
    cutsFrom done (i ++ j) = cutsFrom done i ++ cutsFrom (done + i.actions.length) j := by
  induction i generalizing done with
  | nil => rfl
  | cons o later ih =>
    cases o with
    | performed action value =>
      have hcount : done + (actions (.performed action value :: later)).length =
          done + 1 + (actions later).length := by
        have hactions : actions (.performed action value :: later) = action :: actions later := rfl
        rw [hactions, List.length_cons]
        omega
      rw [hcount]
      exact ih (done + 1)
    | saveBegan => exact congrArg (done :: ·) (ih done)
    | published | loaded | cancelled | noticed | saveEnded | recorded => exact ih done

theorem length_cutsFrom (done : Nat) (j : Journal K V) : (cutsFrom done j).length = j.saves.length := by
  induction j generalizing done with
  | nil => rfl
  | cons o later ih =>
    cases o with
    | saveBegan => exact congrArg (· + 1) (ih done)
    | performed | published | loaded | cancelled | noticed | saveEnded | recorded => exact ih _

theorem cuts_at (before after : Journal K V) (copy : List (Entry K V)) :
    (cuts (before ++ .saveBegan copy :: after))[before.saves.length]? =
      some before.actions.length := by
  rw [cuts, cutsFrom_append, ← length_cutsFrom 0 before, List.getElem?_append_right (Nat.le_refl _),
    Nat.sub_self, Nat.zero_add]
  rfl

theorem take_actions_before (before after : Journal K V) (copy : List (Entry K V)) :
    (actions (before ++ .saveBegan copy :: after)).take before.actions.length = before.actions := by
  rw [actions_append]
  exact List.take_left

/-- What holds at each copy holds of all copies. -/
theorem forall₂_cuts {P : Nat → List (Entry K V) → Prop} {j : Journal K V}
    (h : ∀ (before : Journal K V) copy after, j = before ++ .saveBegan copy :: after →
      P before.actions.length copy) :
    List.Forall₂ P j.cuts j.saves := by
  induction j using List.reverseRecOn with
  | nil => exact .nil
  | append_singleton j o ih =>
    have hearlier : List.Forall₂ P (cuts j) (saves j) := by
      refine ih fun before copy after hj => h before copy (after ++ [o]) ?_
      rw [hj, List.append_assoc, List.cons_append]
    have hlast : List.Forall₂ P (cutsFrom (0 + (actions j).length) [o]) (saves [o]) := by
      rw [Nat.zero_add]
      cases o with
      | saveBegan copy => exact .cons (h j copy [] rfl) .nil
      | performed | published | loaded | cancelled | noticed | saveEnded | recorded => exact .nil
    rw [cuts, cutsFrom_append, saves_append]
    exact List.rel_append hearlier hlast

/-! ## Consistent cuts -/

variable [DecidableEq K]

/-- A copy is what the cache held after the first `n` operations, and no larger than the policy allows. -/
structure IsCut (p : Policy) (j : Journal K V) (n : Nat) (copy : List (Entry K V)) : Prop where
  done : n ≤ j.actions.length
  held : ∃ snapshot now, j.loads = [(snapshot, now)] ∧
    copy = ((Contents.load p now snapshot).contents.after p (j.actions.take n)).entries
  within : Entries.Within p copy

/-- The copies are cuts that never go back, and a copy misses no operation whose signal was seen before. -/
structure ConsistentCuts (p : Policy) (j : Journal K V) (cuts : List Nat) : Prop where
  copies : List.Forall₂ (IsCut p j) cuts j.saves
  forwards : cuts.Pairwise (· ≤ ·)
  noticed : ∀ (before : Journal K V) copy after, j = before ++ .saveBegan copy :: after →
    ∃ n, cuts[before.saves.length]? = some n ∧ before.seen.actions <+: j.actions.take n

end Journal

/-! ## Runs -/

namespace Manager
variable {K V : Type} [DecidableEq K]

theorem step?_wake {m : Manager K V} (idle : m.phase = .idle) (persistent : m.persistent = true)
    (unseen : m.unseen = true) (running : m.cancelled = false) :
    m.step? .wake = some { m with phase := .debouncing, unseen := false } := by
  simp [step?, idle, persistent, unseen, running]

theorem Run.isCut {p : Policy} {persistent : Bool} {m : Manager K V} {j before after : Journal K V}
    {copy : List (Entry K V)} (hrun : Run (Manager.start p persistent) j m)
    (hj : j = before ++ .saveBegan copy :: after) : j.IsCut p before.actions.length copy := by
  obtain ⟨mid, last, hmid, hphase, -, hcopy⟩ := hrun.at_save hj
  have htake : j.actions.take before.actions.length = before.actions := by
    rw [hj]
    exact Journal.take_actions_before before after copy
  rcases hmid.loaded_once with hunloaded | ⟨snapshot, now, hloads, hfollows⟩
  · rw [hunloaded.phase] at hphase
    cases hphase
  have hload : (snapshot, now) ∈ j.loads := by
    rw [hj, Journal.loads_append, hloads]
    exact List.mem_append_left _ (List.mem_singleton.mpr rfl)
  refine ⟨?_, ⟨snapshot, now, hrun.loads_eq hload, ?_⟩, ?_⟩
  · rw [← htake, List.length_take]
    exact Nat.min_le_right _ _
  · rw [htake, Contents.entries_after (Contents.sound_load p now snapshot), ← hfollows.entries, hcopy]
  · rw [← hcopy]
    exact hmid.within

theorem Run.consistentCuts {p : Policy} {persistent : Bool} {m : Manager K V} {j : Journal K V}
    (hrun : Run (Manager.start p persistent) j m) : j.ConsistentCuts p j.cuts := by
  refine ⟨Journal.forall₂_cuts fun before copy after hj => hrun.isCut hj,
    Journal.pairwise_cutsFrom 0 j, fun before copy after hj => ?_⟩
  subst hj
  refine ⟨_, Journal.cuts_at before after copy, ?_⟩
  rw [Journal.take_actions_before]
  exact before.actions_seen_prefix

end Manager

namespace Locked
variable {K V : Type} [DecidableEq K]

/-- However operations, each with all its stages, interleave with the background work and a shutdown, the
copies that are handed over are consistent cuts. -/
theorem run_consistentCuts {p : Policy} {persistent : Bool} {s : Locked K V} {j : Journal K V}
    (hrun : Run (Locked.start p persistent) j s) : ∃ cuts, j.ConsistentCuts p cuts := by
  obtain ⟨m, hm⟩ := exists_run_iff.mp ⟨s, hrun⟩
  exact ⟨j.cuts, hm.consistentCuts⟩

/-- The background work wakes up before a write has given the lock back, it marks the signals as seen in the
middle of a batch, and its first copy is being saved in the middle of a look-up. -/
theorem run_consistentCuts_of_two_saves :
    ∃ (j : Journal Nat Nat) (s : Locked Nat Nat),
      Run (Locked.start Manager.smallPolicy true) j s ∧
        j.actions = [.put 1 10 6, .putAll [(2, 20, 7), (3, 30, 8)], .get 2 9] ∧ j.saves.length = 2 ∧
        ∃ cuts, j.ConsistentCuts Manager.smallPolicy cuts := by
  have hstart : Run (Locked.start Manager.smallPolicy true : Locked Nat Nat) [] _ := Run.nil
  have hloaded := hstart.beside (.load [] 5) rfl (.inl rfl)
  -- the work wakes up before a write has given the lock back
  have hput := (hloaded.silent (.acquire (.put 1 10 6) (by simp) rfl)).advance
  have hsignalled := hput.step (.complete _ rfl rfl rfl)
  have hwoken := hsignalled.beside .wake (Manager.step?_wake rfl rfl (Bool.or_true _) rfl) (.inr rfl)
  have hreleased := hwoken.silent (.release _ rfl rfl)
  have helapsed := hreleased.beside .elapse rfl (.inr rfl)
  -- it marks the signals as seen in the middle of a batch
  have hbatch := helapsed.silent (.acquire (.putAll [(2, 20, 7), (3, 30, 8)]) (by simp) rfl)
  have hbegun := hbatch.silent (.advance _ _ _ rfl rfl)
  have hmarked := hbegun.beside .mark rfl (.inr rfl)
  have hwritten := hmarked.advance.step (.complete _ rfl rfl rfl)
  have hfreed := hwritten.silent (.release _ rfl rfl)
  have hcopied := hfreed.beside .copy rfl (.inl rfl)
  -- the copy is saved in the middle of a look-up
  have hlookup := hcopied.silent (.acquire (.get 2 9) (by simp) rfl)
  have hfound := hlookup.silent (.advance _ _ _ rfl rfl)
  have hsaved := hfound.beside (.finish true) rfl (.inr rfl)
  have hread := hsaved.advance.step (.complete _ rfl rfl rfl)
  have hidle := (hread.silent (.release _ rfl rfl)).beside .record rfl (.inl rfl)
  have hagain := hidle.beside .wake (Manager.step?_wake rfl rfl rfl rfl) (.inr rfl)
  have hdue := (hagain.beside .elapse rfl (.inr rfl)).beside .mark rfl (.inr rfl)
  have hrun := hdue.beside .copy rfl (.inl rfl)
  exact ⟨_, _, hrun, rfl, rfl, run_consistentCuts hrun⟩

end Locked

end ExpiringCache
