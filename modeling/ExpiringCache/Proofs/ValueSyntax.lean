import ExpiringCache.Json.Token
import ExpiringCache.Proofs.ScalarText

/-!
The syntax of values of any kind, with blanks wherever they may stand. Main statement: a value that no one asks for is
passed over to its end and no further, however deeply it is nested.
-/
namespace ExpiringCache.Json
set_option autoImplicit false

open Text (ascii)

/-! ## Blanks and separators -/

def Blank (s : Bytes) : Prop := ∀ b ∈ s, isSpace b = true

theorem blank_nil : Blank [] := nofun

theorem Blank.skipSpace_eq {blank : Bytes} (h : Blank blank) {b : UInt8} (hb : isSpace b = false) (s : Bytes) :
    skipSpace (blank ++ b :: s) = b :: s := by
  rw [skipSpace_append h, skipSpace_cons hb]

theorem Blank.ends {blank s : Bytes} (h : Blank blank) (hs : Ends s) : Ends (blank ++ s) := by
  cases blank with
  | nil => exact hs
  | cons b blank =>
    refine ends_cons ?_ _
    have hspace : isSpace b = true := h b (List.mem_cons_self ..)
    simp only [isSpace, Bool.or_eq_true, decide_eq_true_eq] at hspace
    rcases hspace with ((rfl | rfl) | rfl) | rfl <;> decide

/-- What stands before an item, which is the first one or comes after another. -/
inductive Separator : Bool → Bytes → Prop
  | first {blank : Bytes} : Blank blank → Separator true blank
  | next {before after : Bytes} : Blank before → Blank after → Separator false (before ++ ascii ',' :: after)

theorem Separator.ends {separator : Bytes} (h : Separator false separator) (s : Bytes) : Ends (separator ++ s) := by
  cases h with
  | next hbefore _ =>
    rw [List.append_assoc]
    exact hbefore.ends (ends_cons (by decide) _)

/-- Every item but the first takes a comma. -/
theorem Separator.length_pos {first : Bool} {separator : Bytes} (h : Separator first separator) :
    1 ≤ separator.length + first.toNat := by
  cases h with
  | first _ => exact Nat.le_add_left 1 _
  | next _ _ =>
    rw [List.length_append, List.length_cons]
    omega

/-! ## Syntax -/

def Bracket.opening : Bracket → UInt8
  | .list => ascii '['
  | .object => ascii '{'

/-- What comes before a value inside a bracket: a name and a colon in an object, nothing in a list. -/
inductive Label : Bracket → Bytes → Prop
  | list : Label .list []
  | object {name before after : Bytes} : AnyString name → Blank before → Blank after →
      Label .object (name ++ (before ++ ascii ':' :: after))

/-- A value, or what is left inside a bracket before the first item or after another. -/
inductive Part where
  | value
  | inside (bracket : Bracket) (first : Bool)

inductive Formed : Part → Bytes → Prop
  | literal {word : String} : word ∈ ["null", "true", "false"] → Formed .value (Text.bytesOf word)
  | number {s : Bytes} : NumberText s → Formed .value s
  | string {s : Bytes} : AnyString s → Formed .value s
  | bracketed {bracket : Bracket} {body : Bytes} : Formed (.inside bracket true) body →
      Formed .value (bracket.opening :: (body ++ [bracket.closing]))
  | done {bracket : Bracket} {first : Bool} {blank : Bytes} : Blank blank → Formed (.inside bracket first) blank
  | item {bracket : Bracket} {first : Bool} {separator label value rest : Bytes} : Separator first separator →
      Label bracket label → Formed .value value → Formed (.inside bracket false) rest →
      Formed (.inside bracket first) (separator ++ (label ++ (value ++ rest)))

theorem ends_closing (bracket : Bracket) (s : Bytes) : Ends (bracket.closing :: s) := by
  cases bracket <;> exact ends_cons (by decide) s

theorem Formed.ends {bracket : Bracket} {s : Bytes} (h : Formed (.inside bracket false) s) (r : Bytes) :
    Ends (s ++ bracket.closing :: r) := by
  cases h with
  | done hblank => exact hblank.ends (ends_closing bracket r)
  | item hseparator _ _ _ =>
    rw [List.append_assoc]
    exact hseparator.ends _

/-! ## One thing after another -/

/-- What stands inside a bracket before the first thing or after another, up to the closing bracket. -/
inductive Listed {α : Type} (text : α → Bytes → Prop) : Bool → List α → Bytes → Prop
  | done {first : Bool} {blank : Bytes} : Blank blank → Listed text first [] blank
  | item {first : Bool} {a : α} {as : List α} {separator s rest : Bytes} : Separator first separator → text a s →
      Listed text false as rest → Listed text first (a :: as) (separator ++ (s ++ rest))

/-- The text begins with a bracket. -/
def Opens (s : Bytes) : Prop := ∃ (bracket : Bracket) (r : Bytes), s = bracket.opening :: r

def Bracketed {α : Type} (bracket : Bracket) (text : α → Bytes → Prop) (as : List α) (s : Bytes) : Prop :=
  ∃ body, Listed text true as body ∧ s = bracket.opening :: (body ++ [bracket.closing])

section
variable {α : Type} {text : α → Bytes → Prop}

theorem Listed.ends {as : List α} {s : Bytes} (h : Listed text false as s) (bracket : Bracket) (r : Bytes) :
    Ends (s ++ bracket.closing :: r) := by
  cases h with
  | done hblank => exact hblank.ends (ends_closing bracket r)
  | item hseparator _ _ =>
    rw [List.append_assoc]
    exact hseparator.ends _

theorem Listed.length_le {first : Bool} {as : List α} {s : Bytes} (h : Listed text first as s) :
    as.length ≤ s.length + first.toNat := by
  induction h with
  | done _ => exact Nat.zero_le _
  | @item first a as separator s rest hseparator _ _ ih =>
    have hcomma := hseparator.length_pos
    simp only [List.length_append, List.length_cons, Bool.toNat_false] at ih ⊢
    omega

theorem Bracketed.opens {bracket : Bracket} {as : List α} {s : Bytes} (h : Bracketed bracket text as s) : Opens s := by
  obtain ⟨body, -, rfl⟩ := h
  exact ⟨bracket, _, rfl⟩

end

/-! ## Values without brackets -/

/-- The text of a value that has no parts, told by its first byte and passed over from there. -/
def Single (s : Bytes) : Prop :=
  ∃ b r, s = b :: r ∧ isSpace b = false ∧ b ≠ ascii ']' ∧ b ≠ ascii '[' ∧ b ≠ ascii '{' ∧
    ∀ rest, Ends rest → skipScalar b (r ++ rest) = .ok rest

theorem literal_eq (letters s : Bytes) : literal letters (letters ++ s) = .ok s := by
  induction letters with
  | nil => rfl
  | cons c letters ih => rw [List.cons_append, literal, if_pos rfl, ih]

theorem single_word {word : String} (h : word ∈ ["null", "true", "false"]) : Single (Text.bytesOf word) := by
  simp only [List.mem_cons, List.not_mem_nil, or_false] at h
  rcases h with rfl | rfl | rfl
  · exact ⟨ascii 'n', Text.bytesOf "ull", by decide, by decide, by decide, by decide, by decide,
      fun rest _ => literal_eq (Text.bytesOf "ull") rest⟩
  · exact ⟨ascii 't', Text.bytesOf "rue", by decide, by decide, by decide, by decide, by decide,
      fun rest _ => literal_eq (Text.bytesOf "rue") rest⟩
  · exact ⟨ascii 'f', Text.bytesOf "alse", by decide, by decide, by decide, by decide, by decide,
      fun rest _ => literal_eq (Text.bytesOf "alse") rest⟩

theorem digit_ne {b c : UInt8} (hb : isDigit b = true) (hc : isDigit c = false) : b ≠ c := by
  rintro rfl
  rw [hb] at hc
  cases hc

theorem skipScalar_digit {b : UInt8} (h : isDigit b = true) (r : Bytes) :
    skipScalar b r = (numeral .invalidNumber (b :: r)).map (·.2) := by
  rw [skipScalar, if_neg (digit_ne h rfl), if_neg (digit_ne h rfl), if_neg (digit_ne h rfl), if_neg (digit_ne h rfl),
    if_neg (digit_ne h rfl), if_pos h]

theorem single_number {s : Bytes} (h : NumberText s) : Single s := by
  cases h with
  | @mk sign whole fraction exponent hsign hwhole hfraction hexponent =>
    have hread : ∀ rest, Ends rest →
        (numeral .invalidNumber (whole ++ (fraction ++ exponent) ++ rest)).map (·.2) = .ok rest := by
      intro rest hrest
      obtain ⟨n, hn⟩ := numeral_eq hwhole hfraction hexponent hrest .invalidNumber
      rw [List.append_assoc, List.append_assoc, hn]
      rfl
    simp only [List.mem_cons, List.not_mem_nil, or_false] at hsign
    rcases hsign with rfl | rfl
    · obtain ⟨b, r, rfl, hb⟩ := hwhole.isDigits.head
      refine ⟨b, r ++ (fraction ++ exponent), rfl, Scalar.isDigit_not_space hb, digit_ne hb rfl, digit_ne hb rfl,
        digit_ne hb rfl, fun rest hrest => ?_⟩
      rw [skipScalar_digit hb]
      exact hread rest hrest
    · exact ⟨ascii '-', whole ++ (fraction ++ exponent), rfl, by decide, by decide, by decide, by decide, hread⟩

theorem single_string {s : Bytes} (h : AnyString s) : Single s := by
  obtain ⟨body, rfl, hskip⟩ := h.skipString_eq
  exact ⟨ascii '"', body, rfl, by decide, by decide, by decide, by decide, fun rest _ => hskip rest⟩

theorem Formed.head {s : Bytes} (h : Formed .value s) :
    ∃ b r, s = b :: r ∧ isSpace b = false ∧ b ≠ ascii ']' := by
  have hsingle : Single s → ∃ b r, s = b :: r ∧ isSpace b = false ∧ b ≠ ascii ']' := by
    rintro ⟨b, r, hs, hspace, hclose, -⟩
    exact ⟨b, r, hs, hspace, hclose⟩
  cases h with
  | literal hword => exact hsingle (single_word hword)
  | number hnumber => exact hsingle (single_number hnumber)
  | string hstring => exact hsingle (single_string hstring)
  | @bracketed bracket body _ =>
    refine ⟨bracket.opening, body ++ [bracket.closing], rfl, ?_⟩
    cases bracket <;> decide

/-! ## Passing over a value -/

/-- With any fuel from `k` on, all is passed over from `s` to the end `r`. -/
def Skips (k : Nat) (brackets : List Bracket) (st : Skip) (s r : Bytes) : Prop :=
  ∀ fuel, k ≤ fuel → skipFrom fuel brackets st s = .ok r

/-- After a value the skipper goes on inside the brackets that are open, if there are any. -/
theorem Skips.resume {k : Nat} {brackets : List Bracket} {s r : Bytes} (h : Skips k brackets (.after true) s r)
    {fuel : Nat} (hfuel : k ≤ fuel) :
    (if brackets.isEmpty then .ok s else skipFrom fuel brackets (.after true) s) = .ok r := by
  cases brackets with
  | nil => exact h (fuel + 1) (Nat.le_succ_of_le hfuel)
  | cons bracket brackets => exact h fuel hfuel

theorem skips_single {k : Nat} {brackets : List Bracket} {blank s rest r : Bytes} (hblank : Blank blank)
    (hs : Single s) (hends : Ends rest) (h : Skips k brackets (.after true) rest r) :
    Skips (k + 1) brackets .value (blank ++ (s ++ rest)) r := by
  intro fuel hfuel
  obtain ⟨fuel, rfl⟩ : ∃ n, fuel = n + 1 := ⟨fuel - 1, by omega⟩
  obtain ⟨b, t, rfl, hspace, -, hlist, hobject, hskip⟩ := hs
  rw [skipFrom, List.cons_append, hblank.skipSpace_eq hspace]
  simp only [if_neg hlist, if_neg hobject, hskip rest hends]
  exact h.resume (by omega)

theorem skips_opening {k : Nat} {bracket : Bracket} {brackets : List Bracket} {blank s r : Bytes}
    (hblank : Blank blank) (h : Skips k (bracket :: brackets) (.after false) s r) :
    Skips (k + 1) brackets .value (blank ++ bracket.opening :: s) r := by
  intro fuel hfuel
  obtain ⟨fuel, rfl⟩ : ∃ n, fuel = n + 1 := ⟨fuel - 1, by omega⟩
  have hspace : isSpace bracket.opening = false := by cases bracket <;> decide
  rw [skipFrom, hblank.skipSpace_eq hspace]
  cases bracket <;> exact h fuel (by omega)

theorem skips_closing {k : Nat} {bracket : Bracket} {brackets : List Bracket} {comma : Bool} {blank rest r : Bytes}
    (hblank : Blank blank) (h : Skips k brackets (.after true) rest r) :
    Skips (k + 1) (bracket :: brackets) (.after comma) (blank ++ bracket.closing :: rest) r := by
  intro fuel hfuel
  obtain ⟨fuel, rfl⟩ : ∃ n, fuel = n + 1 := ⟨fuel - 1, by omega⟩
  have hspace : isSpace bracket.closing = false := by cases bracket <;> decide
  rw [skipFrom, hblank.skipSpace_eq hspace]
  simp only [if_true]
  exact h.resume (by omega)

theorem Blank.colon_eq {blank : Bytes} (h : Blank blank) (s : Bytes) : colon (blank ++ ascii ':' :: s) = .ok s := by
  rw [colon, h.skipSpace_eq (by decide)]
  rfl

theorem Label.beforeValue_eq {bracket : Bracket} {label blank : Bytes} (h : Label bracket label)
    (hblank : Blank blank) :
    ∃ blank', Blank blank' ∧ ∀ s, beforeValue bracket (blank ++ (label ++ s)) = .ok (blank' ++ s) := by
  cases h with
  | list => exact ⟨blank, hblank, fun s => rfl⟩
  | @object name before after hname hbefore hafter =>
    obtain ⟨body, rfl, hskip⟩ := hname.skipString_eq
    refine ⟨after, hafter, fun s => ?_⟩
    simp only [beforeValue, skipName, List.cons_append, List.append_assoc,
      hblank.skipSpace_eq (show isSpace (ascii '"') = false by decide), if_true, hskip, hbefore.colon_eq]

/-- What stands before a value is no blank and does not close the bracket. -/
theorem Label.head {bracket : Bracket} {label value : Bytes} (h : Label bracket label) (hvalue : Formed .value value)
    (s : Bytes) : ∃ b r, label ++ (value ++ s) = b :: r ∧ isSpace b = false ∧ b ≠ bracket.closing := by
  cases h with
  | list =>
    obtain ⟨b, r, rfl, hspace, hclose⟩ := hvalue.head
    exact ⟨b, r ++ s, rfl, hspace, hclose⟩
  | object hname _ _ =>
    obtain ⟨body, -, rfl⟩ := hname
    exact ⟨ascii '"', _, rfl, by decide, by decide⟩

theorem skips_item {k : Nat} {bracket : Bracket} {brackets : List Bracket} {first : Bool}
    {separator label value s r : Bytes} (hseparator : Separator first separator) (hlabel : Label bracket label)
    (hvalue : Formed .value value)
    (h : ∀ blank, Blank blank → Skips k (bracket :: brackets) .value (blank ++ (value ++ s)) r) :
    Skips (k + 1) (bracket :: brackets) (.after !first) (separator ++ (label ++ (value ++ s))) r := by
  intro fuel hfuel
  obtain ⟨fuel, rfl⟩ : ∃ n, fuel = n + 1 := ⟨fuel - 1, by omega⟩
  cases hseparator with
  | first hblank =>
    obtain ⟨b, t, htext, hspace, hclose⟩ := hlabel.head hvalue s
    obtain ⟨blank', hblank', hbefore⟩ := hlabel.beforeValue_eq blank_nil
    have hskip := hbefore (value ++ s)
    rw [List.nil_append, htext] at hskip
    rw [skipFrom, htext, hblank.skipSpace_eq hspace]
    simp only [if_neg hclose, Bool.not_true, Bool.false_and, Bool.false_eq_true, if_false, hskip]
    exact h blank' hblank' fuel (by omega)
  | @next before after hbefore hafter =>
    have hclose : ascii ',' ≠ bracket.closing := by cases bracket <;> decide
    obtain ⟨blank', hblank', hskip⟩ := hlabel.beforeValue_eq hafter
    rw [skipFrom, List.append_assoc, List.cons_append, hbefore.skipSpace_eq (by decide)]
    simp only [if_neg hclose, bne_self_eq_false, Bool.and_false, Bool.false_eq_true, if_false, Bool.not_false, if_true,
      hskip]
    exact h blank' hblank' fuel (by omega)

/-- How far each part is passed over. A byte pays for two rounds, and the opening bracket for the first round after
it. -/
def Part.Skipped : Part → Bytes → Prop
  | .value, s => ∀ {k : Nat} (brackets : List Bracket) {blank rest r : Bytes}, Blank blank → Ends rest →
    Skips k brackets (.after true) rest r → Skips (k + 2 * s.length) brackets .value (blank ++ (s ++ rest)) r
  | .inside bracket first, s => ∀ {k : Nat} (brackets : List Bracket) {rest r : Bytes},
    Skips k brackets (.after true) rest r →
      Skips (k + 2 * s.length + (1 + first.toNat)) (bracket :: brackets) (.after !first)
        (s ++ bracket.closing :: rest) r

theorem Skips.mono {k k' : Nat} {brackets : List Bracket} {st : Skip} {s r : Bytes} (h : Skips k brackets st s r)
    (hk : k ≤ k') : Skips k' brackets st s r :=
  fun fuel hfuel => h fuel (Nat.le_trans hk hfuel)

theorem skipped_single {s : Bytes} (h : Single s) : Part.Skipped .value s := by
  intro k brackets blank rest r hblank hends hrest
  have hlength : 1 ≤ s.length := by
    obtain ⟨b, t, rfl, -⟩ := h
    exact Nat.succ_pos _
  exact (skips_single hblank h hends hrest).mono (by omega)

theorem Formed.skipped {part : Part} {s : Bytes} (h : Formed part s) : part.Skipped s := by
  induction h with
  | literal hword => exact skipped_single (single_word hword)
  | number hnumber => exact skipped_single (single_number hnumber)
  | string hstring => exact skipped_single (single_string hstring)
  | @bracketed bracket body _ ih =>
    intro k brackets blank rest r hblank _ hrest
    have hbody := ih brackets hrest
    rw [List.cons_append, List.append_assoc, List.singleton_append]
    refine (skips_opening hblank hbody).mono ?_
    simp only [List.length_cons, List.length_append, List.length_nil, Bool.toNat_true]
    omega
  | done hblank =>
    intro k brackets rest r hrest
    exact (skips_closing hblank hrest).mono (by omega)
  | @item bracket first separator label value tail hseparator hlabel hvalue htail ihvalue ihtail =>
    intro k brackets rest r hrest
    have hlater := ihtail brackets hrest
    have hskip := skips_item hseparator hlabel hvalue fun blank hblank =>
      ihvalue (bracket :: brackets) hblank (htail.ends rest) hlater
    have hcomma := hseparator.length_pos
    rw [List.append_assoc, List.append_assoc, List.append_assoc]
    refine hskip.mono ?_
    simp only [List.length_append, Bool.toNat_false]
    omega

/-- A value of any kind is passed over to its end and no further. -/
theorem Formed.skipValue_eq {blank value rest : Bytes} (h : Formed .value value) (hblank : Blank blank)
    (hends : Ends rest) : skipValue (blank ++ (value ++ rest)) = .ok rest := by
  have hrest : Skips 1 [] (.after true) rest rest := by
    intro fuel hfuel
    obtain ⟨fuel, rfl⟩ : ∃ n, fuel = n + 1 := ⟨fuel - 1, by omega⟩
    rfl
  refine h.skipped [] hblank hends hrest _ ?_
  simp only [List.length_append]
  omega

/-! ## Passing over what can be read -/

theorem skipValue_of_skipScalar {s : Bytes} {b : UInt8} {t r : Bytes} (hs : skipSpace s = b :: t)
    (hlist : b ≠ ascii '[') (hobject : b ≠ ascii '{') (h : skipScalar b t = .ok r) : skipValue s = .ok r := by
  rw [skipValue, skipFrom, hs]
  simp only [if_neg hlist, if_neg hobject, h]
  rfl

theorem skipValue_of_string {s : Bytes} {t : String} {r : Bytes} (h : string s = .ok (t, r)) :
    skipValue s = .ok r := by
  rw [string] at h
  split at h
  · cases h
  · rename_i b body hs
    split at h
    · rename_i hb
      rw [hb] at hs
      exact skipValue_of_skipScalar hs (by decide) (by decide) (skipString_of_stringBody h)
    · cases h

theorem numeral_of_number {negative : Bool} {s : Bytes} {n : Number} {r : Bytes}
    (h : number negative s = .ok (n, r)) : (numeral .invalidNumber s).map (·.2) = .ok r := by
  rw [number] at h
  split at h
  · cases h
  · rename_i hnumeral
    split at h
    · cases h
    · cases h
      rw [numeral_fault hnumeral]
      rfl

end ExpiringCache.Json
