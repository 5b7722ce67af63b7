import ExpiringCache.Json.Number
import Mathlib.Tactic.SplitIfs

/-!
The ways to write a number. A number shows no end of its own. Main statement: where it is followed by something that
does not go on with it, the reader finds its end.
-/
namespace ExpiringCache.Json
set_option autoImplicit false

open Text (ascii)

/-! ## Spellings -/

def IsDigits (ds : Bytes) : Prop := ds ≠ [] ∧ ∀ b ∈ ds, isDigit b = true

/-- A zero stands alone and begins no other number. -/
inductive WholeText : Bytes → Prop
  | zero : WholeText [ascii '0']
  | digits {ds : Bytes} : IsDigits ds → ds.head? ≠ some (ascii '0') → WholeText ds

inductive FractionText : Bytes → Prop
  | absent : FractionText []
  | present {ds : Bytes} : IsDigits ds → FractionText (ascii '.' :: ds)

inductive ExponentText : Bytes → Prop
  | absent : ExponentText []
  | present {letter : Char} {sign ds : Bytes} : letter ∈ ['e', 'E'] → sign ∈ [[], [ascii '+'], [ascii '-']] →
      IsDigits ds → ExponentText (ascii letter :: (sign ++ ds))

inductive NumberText : Bytes → Prop
  | mk {sign whole fraction exponent : Bytes} : sign ∈ [[], [ascii '-']] → WholeText whole →
      FractionText fraction → ExponentText exponent → NumberText (sign ++ (whole ++ (fraction ++ exponent)))

/-- What follows a number does not go on with it. -/
def Ends (s : Bytes) : Prop :=
  ∀ b, s.head? = some b → isDigit b = false ∧ b ≠ ascii '.' ∧ b ≠ ascii 'e' ∧ b ≠ ascii 'E'

/-- What follows digits does not go on with them. -/
def EndsDigits (s : Bytes) : Prop := ∀ b, s.head? = some b → isDigit b = false

theorem Ends.endsDigits {s : Bytes} (h : Ends s) : EndsDigits s := fun b hb => (h b hb).1

theorem ends_cons {b : UInt8}
    (h : isDigit b = false ∧ b ≠ ascii '.' ∧ b ≠ ascii 'e' ∧ b ≠ ascii 'E') (s : Bytes) :
    Ends (b :: s) := by
  intro c hc
  cases hc
  exact h

/-! ## Digits -/

theorem digits_eq {ds s : Bytes} (hds : ∀ b ∈ ds, isDigit b = true) (h : EndsDigits s) :
    digits (ds ++ s) = (ds.map digitValue, s) := by
  have hstop : s.takeWhile isDigit = [] ∧ s.dropWhile isDigit = s := by
    cases s with
    | nil => exact ⟨rfl, rfl⟩
    | cons b s =>
      have hb : ¬ isDigit b = true := by simp [h b rfl]
      exact ⟨List.takeWhile_cons_of_neg hb, List.dropWhile_cons_of_neg hb⟩
  rw [digits, List.takeWhile_append_of_pos hds, List.dropWhile_append_of_pos hds, hstop.1, hstop.2,
    List.append_nil]

/-- At least one digit is read where one is wanted. -/
theorem IsDigits.digits_eq {ds s : Bytes} (hds : IsDigits ds) (h : EndsDigits s) :
    digits (ds ++ s) = (ds.map digitValue, s) ∧ (ds.map digitValue).isEmpty = false := by
  refine ⟨Json.digits_eq hds.2 h, ?_⟩
  rw [List.isEmpty_eq_false_iff, ne_eq, List.map_eq_nil_iff]
  exact hds.1

theorem IsDigits.head {ds : Bytes} (h : IsDigits ds) : ∃ b r, ds = b :: r ∧ isDigit b = true := by
  obtain ⟨b, r, rfl⟩ := List.exists_cons_of_ne_nil h.1
  exact ⟨b, r, rfl, h.2 b (List.mem_cons_self ..)⟩

theorem WholeText.isDigits {whole : Bytes} (h : WholeText whole) : IsDigits whole := by
  cases h with
  | zero =>
    refine ⟨List.cons_ne_nil _ _, fun b hb => ?_⟩
    rw [List.mem_singleton.mp hb]
    rfl
  | digits hds _ => exact hds

/-! ## The parts of a number -/

theorem WholeText.wholePart_eq {whole s : Bytes} (hwhole : WholeText whole) (h : EndsDigits s) (atEnd : Fault) :
    wholePart atEnd (whole ++ s) = .ok (whole.map digitValue, s) := by
  cases hwhole with
  | zero =>
    have hnone : s.head?.any isDigit = false := by
      cases s with
      | nil => rfl
      | cons b s => exact h b rfl
    rw [List.cons_append, List.nil_append, wholePart, if_pos rfl, hnone]
    rfl
  | digits hds hzero =>
    have hdigits := Json.digits_eq hds.2 h
    obtain ⟨b, r, rfl, hb⟩ := hds.head
    have hb0 : b ≠ ascii '0' := fun h => hzero (by rw [List.head?_cons, h])
    rw [List.cons_append] at hdigits ⊢
    rw [wholePart, if_neg hb0, if_pos hb, hdigits]

theorem FractionText.fractionPart_eq {fraction s : Bytes} (hfraction : FractionText fraction) (h : EndsDigits s)
    (hpoint : s.head? ≠ some (ascii '.')) (atEnd : Fault) :
    fractionPart atEnd (fraction ++ s) = .ok (fraction.tail.map digitValue, s) := by
  cases hfraction with
  | absent =>
    cases s with
    | nil => rfl
    | cons b s =>
      have hb : b ≠ ascii '.' := fun hb => hpoint (by rw [List.head?_cons, hb])
      rw [List.nil_append, fractionPart, if_neg hb]
      rfl
  | present hds =>
    obtain ⟨hdigits, hsome⟩ := hds.digits_eq h
    simp only [List.cons_append, fractionPart, if_true, hdigits, hsome, Bool.false_eq_true, if_false, List.tail_cons]

theorem exponentSign_eq {sign ds s : Bytes} (hsign : sign ∈ [[], [ascii '+'], [ascii '-']]) (hds : IsDigits ds) :
    (exponentSign (sign ++ (ds ++ s))).2 = ds ++ s := by
  simp only [List.mem_cons, List.not_mem_nil, or_false] at hsign
  rcases hsign with rfl | rfl | rfl
  · obtain ⟨b, r, rfl, hb⟩ := hds.head
    have hminus : b ≠ ascii '-' := by
      rintro rfl
      cases hb
    have hplus : b ≠ ascii '+' := by
      rintro rfl
      cases hb
    rw [List.nil_append, List.cons_append, exponentSign, if_neg hminus, if_neg hplus]
  · rfl
  · rfl

theorem exponentPart_of_ends {s : Bytes} (h : Ends s) (atEnd : Fault) : exponentPart atEnd s = .ok (none, s) := by
  cases s with
  | nil => rfl
  | cons b s =>
    obtain ⟨-, -, hlower, hupper⟩ := h b rfl
    rw [exponentPart, if_neg (by simp [hlower, hupper])]

theorem ExponentText.exponentPart_eq {exponent s : Bytes} (hexponent : ExponentText exponent) (h : Ends s)
    (atEnd : Fault) : ∃ e, exponentPart atEnd (exponent ++ s) = .ok (e, s) := by
  cases hexponent with
  | absent => exact ⟨none, exponentPart_of_ends h atEnd⟩
  | @present letter sign ds hletter hsign hds =>
    have hcond : (ascii letter = ascii 'e' || ascii letter = ascii 'E') = true := by
      simp only [List.mem_cons, List.not_mem_nil, or_false] at hletter
      rcases hletter with rfl | rfl <;> rfl
    obtain ⟨hdigits, hsome⟩ := hds.digits_eq h.endsDigits
    refine ⟨some ⟨(exponentSign (sign ++ (ds ++ s))).1, ds.map digitValue⟩, ?_⟩
    simp only [List.cons_append, List.append_assoc, exponentPart, hcond, if_true, exponentSign_eq hsign hds, hdigits,
      hsome, Bool.false_eq_true, if_false]

/-! ## The whole number -/

theorem ExponentText.ends {exponent s : Bytes} (hexponent : ExponentText exponent) (h : Ends s) :
    EndsDigits (exponent ++ s) ∧ (exponent ++ s).head? ≠ some (ascii '.') := by
  cases hexponent with
  | absent => exact ⟨h.endsDigits, fun hpoint => (h _ hpoint).2.1 rfl⟩
  | present hletter _ _ =>
    simp only [List.mem_cons, List.not_mem_nil, or_false] at hletter
    rcases hletter with rfl | rfl <;>
    · refine ⟨fun b hb => ?_, fun hpoint => ?_⟩
      · cases hb
        rfl
      · cases hpoint

theorem FractionText.endsDigits {fraction s : Bytes} (hfraction : FractionText fraction) (h : EndsDigits s) :
    EndsDigits (fraction ++ s) := by
  cases hfraction with
  | absent => exact h
  | present _ =>
    intro b hb
    cases hb
    rfl

theorem numeral_eq {whole fraction exponent s : Bytes} (hwhole : WholeText whole) (hfraction : FractionText fraction)
    (hexponent : ExponentText exponent) (h : Ends s) (atEnd : Fault) :
    ∃ n, numeral atEnd (whole ++ (fraction ++ (exponent ++ s))) = .ok (n, s) := by
  obtain ⟨hends, hpoint⟩ := hexponent.ends h
  obtain ⟨e, hread⟩ := hexponent.exponentPart_eq h atEnd
  refine ⟨⟨whole.map digitValue, fraction.tail.map digitValue, e⟩, ?_⟩
  simp only [numeral, hwhole.wholePart_eq (hfraction.endsDigits hends), hfraction.fractionPart_eq hends hpoint, hread]

/-! ## Where digits are wanted and none are there -/

theorem wholePart_fault {atEnd : Fault} {s : Bytes} {x : List Nat × Bytes} (h : wholePart atEnd s = .ok x)
    (atEnd' : Fault) : wholePart atEnd' s = .ok x := by
  cases s with
  | nil => cases h
  | cons b s => exact h

theorem fractionPart_fault {atEnd : Fault} {s : Bytes} {x : List Nat × Bytes} (h : fractionPart atEnd s = .ok x)
    (atEnd' : Fault) : fractionPart atEnd' s = .ok x := by
  cases s with
  | nil => exact h
  | cons b s =>
    simp only [fractionPart] at h ⊢
    split_ifs at h ⊢ <;> exact h

theorem exponentPart_fault {atEnd : Fault} {s : Bytes} {x : Option Exponent × Bytes}
    (h : exponentPart atEnd s = .ok x) (atEnd' : Fault) : exponentPart atEnd' s = .ok x := by
  cases s with
  | nil => exact h
  | cons b s =>
    simp only [exponentPart] at h ⊢
    split_ifs at h ⊢ <;> exact h

/-- Which fault the end of the text would be makes no difference to a number that is read. -/
theorem numeral_fault {atEnd : Fault} {s : Bytes} {x : Numeral × Bytes} (h : numeral atEnd s = .ok x)
    (atEnd' : Fault) : numeral atEnd' s = .ok x := by
  rw [numeral] at h
  split at h
  · cases h
  · rename_i whole s₁ hwhole
    split at h
    · cases h
    · rename_i fraction s₂ hfraction
      split at h
      · cases h
      · rename_i exponent s₃ hexponent
        simp only [numeral, wholePart_fault hwhole atEnd', fractionPart_fault hfraction atEnd',
          exponentPart_fault hexponent atEnd', h]

end ExpiringCache.Json
