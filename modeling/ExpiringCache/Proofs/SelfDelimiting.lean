import ExpiringCache.Proofs.ScalarText
import Mathlib.Data.List.Basic
import Mathlib.Tactic.SplitIfs

/-!
Readers that find out by themselves where the text of a thing ends. What one of them has read it reads again
when more bytes follow, and it leaves these bytes over. Of a number this is so unless it ends the text: more
digits may follow.
-/
namespace ExpiringCache
set_option autoImplicit false

open Text (ascii)

namespace Json

theorem bind_eq_ok {α β : Type} {x : Except Fault α} {f : α → Except Fault β} {b : β}
    (h : (x >>= f) = .ok b) : ∃ a, x = .ok a ∧ f a = .ok b := by
  cases x with
  | error fault => cases h
  | ok a => exact ⟨a, rfl, h⟩

theorem map_eq_ok {α β : Type} {x : Except Fault α} {f : α → β} {b : β} (h : x.map f = .ok b) :
    ∃ a, x = .ok a ∧ f a = b := by
  cases x with
  | error fault => cases h
  | ok a => exact ⟨a, rfl, Except.ok.inj h⟩

/-! ## Blanks, literals and colons -/

theorem skipSpace_append_of_cons {s : Bytes} {b : UInt8} {r : Bytes} (h : skipSpace s = b :: r)
    (more : Bytes) : skipSpace (s ++ more) = b :: (r ++ more) := by
  have hskip : s.dropWhile isSpace = b :: r := h
  rw [skipSpace, List.dropWhile_append, hskip]
  rfl

theorem literal_append {letters s r : Bytes} (h : literal letters s = .ok r) (more : Bytes) :
    literal letters (s ++ more) = .ok (r ++ more) := by
  induction letters generalizing s with
  | nil =>
    rw [literal] at h ⊢
    rw [Except.ok.inj h]
  | cons c cs ih =>
    cases s with
    | nil => cases h
    | cons b s =>
      rw [List.cons_append]
      rw [literal] at h ⊢
      split_ifs at h ⊢
      exact ih h

theorem colon_append {s r : Bytes} (h : colon s = .ok r) (more : Bytes) :
    colon (s ++ more) = .ok (r ++ more) := by
  rw [colon] at h
  split at h
  · cases h
  · rename_i b r' hskip
    rw [colon, skipSpace_append_of_cons hskip]
    simp only
    split_ifs at h ⊢
    cases h
    rfl

/-! ## Strings -/

theorem scan_append {strict : Bool} {st : Scan} {s text r : Bytes} (h : scan strict st s = .ok (text, r))
    (more : Bytes) : scan strict st (s ++ more) = .ok (text, r ++ more) := by
  induction s generalizing st text with
  | nil => cases st <;> cases h
  | cons b s ih =>
    have hpush : ∀ {added next text}, push added (scan strict next s) = .ok (text, r) →
        push added (scan strict next (s ++ more)) = .ok (text, r ++ more) := by
      intro added next text hok
      obtain ⟨body, hbody, rfl⟩ := push_eq_ok hok
      rw [ih hbody]
      rfl
    rw [List.cons_append]
    cases st with
    | plain =>
      rw [scan] at h ⊢
      split_ifs at h ⊢
      · cases h
        rfl
      · exact ih h
      · exact hpush h
    | escape =>
      rw [scan] at h ⊢
      split_ifs at h ⊢
      · exact ih h
      · split at h
        · exact hpush h
        · cases h
    | numeric lead ds =>
      rw [scan] at h ⊢
      split_ifs at h ⊢
      · exact ih h
      · split at h
        · cases h
        · split at h
          · exact hpush h
          · cases h
      · split at h
        · cases h
        · exact ih h
    | paired lead =>
      rw [scan] at h ⊢
      split_ifs at h ⊢
      exact ih h
    | pairedEscape lead =>
      rw [scan] at h ⊢
      split_ifs at h ⊢
      exact ih h

theorem stringBody_append {s : Bytes} {t : String} {r : Bytes} (h : stringBody s = .ok (t, r))
    (more : Bytes) : stringBody (s ++ more) = .ok (t, r ++ more) := by
  rw [stringBody] at h
  split at h
  · cases h
  · rename_i text rest hscan
    rw [stringBody, scan_append hscan]
    simp only
    split at h
    · cases h
      rfl
    · cases h

theorem skipString_append {s r : Bytes} (h : skipString s = .ok r) (more : Bytes) :
    skipString (s ++ more) = .ok (r ++ more) := by
  rw [skipString] at h
  split at h
  · cases h
  · rename_i text rest hscan
    rw [skipString, scan_append hscan]
    cases h
    rfl

theorem string_append {s : Bytes} {t : String} {r : Bytes} (h : string s = .ok (t, r)) (more : Bytes) :
    string (s ++ more) = .ok (t, r ++ more) := by
  rw [string] at h
  split at h
  · cases h
  · rename_i b r' hskip
    rw [string, skipSpace_append_of_cons hskip]
    simp only
    split_ifs at h ⊢
    exact stringBody_append h more

/-! ## Numbers -/

theorem digits_append {s : Bytes} {ds : List Nat} {r : Bytes} (h : digits s = (ds, r)) (hr : r ≠ [])
    (more : Bytes) : digits (s ++ more) = (ds, r ++ more) := by
  obtain ⟨htaken, hleft⟩ := Prod.mk.inj h
  have hopen : (s.dropWhile isDigit).isEmpty = false := by
    rw [hleft, List.isEmpty_eq_false_iff]
    exact hr
  have hshort : (s.takeWhile isDigit).length ≠ s.length := by
    intro hlength
    have hsum := congrArg List.length (s.takeWhile_append_dropWhile (p := isDigit))
    rw [List.length_append, hleft, hlength] at hsum
    exact hr (List.length_eq_zero_iff.mp (by omega))
  rw [digits, List.takeWhile_append, if_neg hshort, htaken, List.dropWhile_append, hopen,
    if_neg (by simp), hleft]

theorem wholePart_append {atEnd : Fault} {s : Bytes} {ds : List Nat} {r : Bytes}
    (h : wholePart atEnd s = .ok (ds, r)) (hr : r ≠ []) (more : Bytes) :
    wholePart atEnd (s ++ more) = .ok (ds, r ++ more) := by
  cases s with
  | nil => cases h
  | cons b s =>
    rw [List.cons_append]
    rw [wholePart] at h ⊢
    split_ifs at h with hzero hdigit hb
    · cases h
      have hhead : (r ++ more).head? = r.head? := List.head?_append_of_ne_nil r hr
      rw [if_pos hzero, hhead, if_neg hdigit]
    · rw [if_neg hzero, if_pos hb, ← List.cons_append, digits_append (Except.ok.inj h) hr]

theorem fractionPart_append {atEnd : Fault} {s : Bytes} {ds : List Nat} {r : Bytes}
    (h : fractionPart atEnd s = .ok (ds, r)) (hr : r ≠ []) (more : Bytes) :
    fractionPart atEnd (s ++ more) = .ok (ds, r ++ more) := by
  cases s with
  | nil =>
    cases h
    exact absurd rfl hr
  | cons b s =>
    rw [List.cons_append]
    rw [fractionPart] at h ⊢
    split_ifs at h ⊢ with hpoint
    · obtain ⟨taken, rest, hdigits⟩ : ∃ taken rest, digits s = (taken, rest) := ⟨_, _, rfl⟩
      simp only [hdigits] at h
      split_ifs at h with hnone
      cases h
      simp only [digits_append hdigits hr, if_neg hnone]
    · cases h
      rfl

theorem exponentSign_append {s : Bytes} (h : s ≠ []) (more : Bytes) :
    exponentSign (s ++ more) = ((exponentSign s).1, (exponentSign s).2 ++ more) := by
  cases s with
  | nil => exact absurd rfl h
  | cons b s =>
    rw [List.cons_append, exponentSign, exponentSign]
    split_ifs <;> rfl

theorem exponentPart_append {atEnd : Fault} {s : Bytes} {e : Option Exponent} {r : Bytes}
    (h : exponentPart atEnd s = .ok (e, r)) (hr : r ≠ []) (more : Bytes) :
    exponentPart atEnd (s ++ more) = .ok (e, r ++ more) := by
  cases s with
  | nil =>
    cases h
    exact absurd rfl hr
  | cons b s =>
    rw [List.cons_append]
    rw [exponentPart] at h ⊢
    split_ifs at h ⊢ with hletter
    · obtain ⟨taken, rest, hdigits⟩ : ∃ taken rest, digits (exponentSign s).2 = (taken, rest) :=
        ⟨_, _, rfl⟩
      simp only [hdigits] at h
      split_ifs at h with hnone
      cases h
      have hs : s ≠ [] := by
        rintro rfl
        cases hdigits
        exact hr rfl
      simp only [exponentSign_append hs, digits_append hdigits hr, if_neg hnone]
    · cases h
      rfl

theorem numeral_append {atEnd : Fault} {s : Bytes} {n : Numeral} {r : Bytes}
    (h : numeral atEnd s = .ok (n, r)) (hr : r ≠ []) (more : Bytes) :
    numeral atEnd (s ++ more) = .ok (n, r ++ more) := by
  rw [numeral] at h
  split at h
  · cases h
  · rename_i whole s₁ hwhole
    split at h
    · cases h
    · rename_i fraction s₂ hfraction
      split at h
      · cases h
      · rename_i exponent s₃ hexponent
        cases h
        -- Where one part leaves nothing, nothing is left by the parts after it either.
        have hs₂ : s₂ ≠ [] := by
          rintro rfl
          cases hexponent
          exact hr rfl
        have hs₁ : s₁ ≠ [] := by
          rintro rfl
          cases hfraction
          exact hs₂ rfl
        simp only [numeral, wholePart_append hwhole hs₁, fractionPart_append hfraction hs₂,
          exponentPart_append hexponent hr]

theorem number_append {negative : Bool} {s : Bytes} {n : Number} {r : Bytes}
    (h : number negative s = .ok (n, r)) (hr : r ≠ []) (more : Bytes) :
    number negative (s ++ more) = .ok (n, r ++ more) := by
  rw [number] at h
  split at h
  · cases h
  · rename_i numeral rest hnumeral
    split at h
    · cases h
    · rename_i value hvalue
      cases h
      simp only [number, numeral_append hnumeral hr, hvalue]

/-! ## Passing over a value -/

theorem map_numeral_append {atEnd : Fault} {s r : Bytes} (h : (numeral atEnd s).map (·.2) = .ok r)
    (hr : r ≠ []) (more : Bytes) : (numeral atEnd (s ++ more)).map (·.2) = .ok (r ++ more) := by
  obtain ⟨⟨n, rest⟩, hnumeral, hrest⟩ := map_eq_ok h
  cases hrest
  rw [numeral_append hnumeral hr]
  rfl

theorem skipScalar_append {b : UInt8} {s r : Bytes} (h : skipScalar b s = .ok r) (hr : r ≠ [])
    (more : Bytes) : skipScalar b (s ++ more) = .ok (r ++ more) := by
  rw [skipScalar] at h ⊢
  split_ifs at h ⊢
  · exact literal_append h more
  · exact literal_append h more
  · exact literal_append h more
  · exact skipString_append h more
  · exact map_numeral_append h hr more
  · exact map_numeral_append h hr more

theorem skipName_append {s r : Bytes} (h : skipName s = .ok r) (more : Bytes) :
    skipName (s ++ more) = .ok (r ++ more) := by
  rw [skipName] at h
  split at h
  · cases h
  · rename_i b r' hskip
    rw [skipName, skipSpace_append_of_cons hskip]
    simp only
    split_ifs at h ⊢
    split at h
    · rename_i rest hstring
      rw [skipString_append hstring]
      exact colon_append h more
    · cases h

theorem beforeValue_append {bracket : Bracket} {s r : Bytes} (h : beforeValue bracket s = .ok r)
    (more : Bytes) : beforeValue bracket (s ++ more) = .ok (r ++ more) := by
  cases bracket with
  | list =>
    cases h
    rfl
  | object => exact skipName_append h more

/-- With more bytes goes more fuel. -/
theorem skipFrom_append {fuel fuel' : Nat} {brackets : List Bracket} {st : Skip} {s r : Bytes}
    (h : skipFrom fuel brackets st s = .ok r) (hr : r ≠ []) (hfuel : fuel ≤ fuel') (more : Bytes) :
    skipFrom fuel' brackets st (s ++ more) = .ok (r ++ more) := by
  induction fuel generalizing fuel' brackets st s with
  | zero => cases h
  | succ fuel ih =>
    obtain ⟨fuel', rfl⟩ : ∃ n, fuel' = n + 1 := ⟨fuel' - 1, by omega⟩
    have hnext : ∀ {brackets st s}, skipFrom fuel brackets st s = .ok r →
        skipFrom fuel' brackets st (s ++ more) = .ok (r ++ more) := fun hok => ih hok (by omega)
    -- A number at the end of the text is no matter: inside a bracket, something has to follow it.
    have hnil : ∀ {bracket brackets}, skipFrom fuel (bracket :: brackets) (.after true) [] ≠ .ok r := by
      intro bracket brackets hok
      cases fuel with
      | zero => cases hok
      | succ fuel => cases hok
    cases st with
    | value =>
      rw [skipFrom] at h
      split at h
      · cases h
      · rename_i b r' hskip
        rw [skipFrom, skipSpace_append_of_cons hskip]
        simp only
        split_ifs at h ⊢ with hlist hobject hlast
        · exact hnext h
        · exact hnext h
        · obtain ⟨rest, hscalar⟩ : ∃ rest, skipScalar b r' = .ok rest := by
            split at h
            · cases h
            · exact ⟨_, ‹_›⟩
          rw [hscalar] at h
          cases h
          rw [skipScalar_append hscalar hr]
        · split at h
          · cases h
          · rename_i rest hscalar
            have hrest : rest ≠ [] := by
              rintro rfl
              obtain ⟨bracket, brackets, rfl⟩ : ∃ x xs, brackets = x :: xs := by
                cases brackets with
                | nil => exact absurd rfl hlast
                | cons x xs => exact ⟨x, xs, rfl⟩
              exact hnil h
            rw [skipScalar_append hscalar hrest]
            exact hnext h
    | after comma =>
      cases brackets with
      | nil =>
        cases h
        rfl
      | cons bracket brackets =>
        rw [skipFrom] at h
        split at h
        · cases h
        · rename_i b r' hskip
          rw [skipFrom, skipSpace_append_of_cons hskip]
          simp only
          have hbytes : (if comma then r' ++ more else b :: (r' ++ more)) =
              (if comma then r' else b :: r') ++ more := by
            split_ifs <;> rfl
          rw [hbytes]
          generalize (if comma then r' else b :: r') = t at h ⊢
          split_ifs at h ⊢
          · cases h
            rfl
          · exact hnext h
          · split at h
            · cases h
            · rename_i rest hbefore
              rw [beforeValue_append hbefore]
              exact hnext h

theorem skipValue_append {s r : Bytes} (h : skipValue s = .ok r) (hr : r ≠ []) (more : Bytes) :
    skipValue (s ++ more) = .ok (r ++ more) := by
  refine skipFrom_append h hr ?_ more
  rw [List.length_append]
  omega

end Json

/-! ## Scalars -/

/-- A kind of key or value whose text ends where the reader says, if anything follows. -/
class SelfDelimiting (α : Type) [Scalar α] : Prop where
  read_append : ∀ {s : Bytes} {a : α} {r : Bytes}, Scalar.read s = .ok (a, r) → r ≠ [] →
    ∀ more : Bytes, Scalar.read (s ++ more) = .ok (a, r ++ more)

namespace Scalar

instance : SelfDelimiting String where
  read_append h _ more := Json.string_append h more

theorem readNumber_append {α : Type} {wanted : Json.Wanted} {accept : Json.Number → Option α} {s : Bytes}
    {a : α} {r : Bytes} (h : readNumber wanted accept s = .ok (a, r)) (hr : r ≠ []) (more : Bytes) :
    readNumber wanted accept (s ++ more) = .ok (a, r ++ more) := by
  unfold readNumber at h ⊢
  extract_lets check at h
  have hcheck : ∀ {negative : Bool} {t : Bytes}, check (Json.number negative t) = .ok (a, r) →
      check (Json.number negative (t ++ more)) = .ok (a, r ++ more) := by
    intro negative t hok
    cases hnumber : Json.number negative t with
    | error f =>
      rw [hnumber] at hok
      cases hok
    | ok read =>
      obtain ⟨n, rest⟩ := read
      rw [hnumber] at hok
      simp only [check] at hok
      split at hok
      · rename_i haccept
        cases hok
        simp only [check, Json.number_append hnumber hr, haccept]
      · cases hok
      · cases hok
  split at h
  · cases h
  · rename_i b r' hskip
    rw [Json.skipSpace_append_of_cons hskip]
    simp only
    split_ifs at h ⊢
    · exact hcheck h
    · exact hcheck h

instance : SelfDelimiting Int64 where
  read_append := readNumber_append

instance : SelfDelimiting UInt32 where
  read_append := readNumber_append

theorem readOption_append {s : Bytes} {t : Option String} {r : Bytes} (h : readOption s = .ok (t, r))
    (more : Bytes) : readOption (s ++ more) = .ok (t, r ++ more) := by
  rw [readOption] at h
  split at h
  · cases h
  · rename_i b r' hskip
    rw [readOption, Json.skipSpace_append_of_cons hskip]
    simp only
    split_ifs at h ⊢
    · split at h
      · rename_i rest hliteral
        have hmore := Json.literal_append hliteral more
        cases h
        rw [Json.literalOf, hmore]
      · cases h
    · split at h
      · rename_i text rest hstring
        have hmore := Json.string_append hstring more
        cases h
        rw [← List.cons_append, hmore]
      · cases h

instance : SelfDelimiting (Option String) where
  read_append h _ more := readOption_append h more

end Scalar

end ExpiringCache
