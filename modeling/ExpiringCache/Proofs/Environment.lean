import ExpiringCache.Config
import ExpiringCache.Proofs.PolicySettings
import Mathlib.Data.List.DropRight

/-!
Which texts a configuration can be read from, and which configurations make a policy. A number stands between
blanks, as digits after a plus sign or none. Main statement: a configuration is read from an environment just if
every number in it is well formed, it has those numbers, and else the first one that is not is reported; its limits
make a policy just if none of them is zero and only one of them is on life.
-/
namespace ExpiringCache
set_option autoImplicit false

namespace Text

/-! ## Blanks at the ends -/

section
variable {cs core left right : List Char}

def AllBlank (cs : List Char) : Prop := ∀ c ∈ cs, isBlank c = true

theorem trim_eq (cs : List Char) : trim cs = (cs.dropWhile isBlank).rdropWhile isBlank := rfl

/-- Only blanks are trimmed off. -/
theorem exists_trim (cs : List Char) :
    ∃ left right, AllBlank left ∧ AllBlank right ∧ cs = left ++ trim cs ++ right := by
  refine ⟨cs.takeWhile isBlank, (cs.dropWhile isBlank).rtakeWhile isBlank, ?_, ?_, ?_⟩
  · intro c hc
    exact List.mem_takeWhile_imp hc
  · intro c hc
    exact List.mem_rtakeWhile_imp hc
  · rw [trim_eq, List.append_assoc, List.rdropWhile_append_rtakeWhile, List.takeWhile_append_dropWhile]

theorem trim_eq_nil_iff : trim cs = [] ↔ AllBlank cs := by
  constructor
  · intro h
    obtain ⟨left, right, hleft, hright, hcs⟩ := exists_trim cs
    rw [hcs, h, List.append_nil]
    intro c hc
    rcases List.mem_append.mp hc with hc | hc
    · exact hleft c hc
    · exact hright c hc
  · intro h
    rw [trim_eq, List.dropWhile_eq_nil_iff.mpr h]
    rfl

/-- What has no blanks is found between blanks. -/
theorem trim_append (hleft : AllBlank left) (hright : AllBlank right)
    (hcore : ∀ c ∈ core, isBlank c = false) (hne : core ≠ []) : trim (left ++ core ++ right) = core := by
  have hstart : core.dropWhile isBlank = core := by
    cases core with
    | nil => rfl
    | cons c cs => rw [List.dropWhile_cons_of_neg (by simp [hcore c])]
  have hend : core.rdropWhile isBlank = core :=
    List.rdropWhile_eq_self_iff.mpr fun hl => by simp [hcore _ (List.getLast_mem hl)]
  have hfront : (left ++ core ++ right).dropWhile isBlank = core ++ right := by
    rw [List.append_assoc, List.dropWhile_append_of_pos hleft, List.dropWhile_append, hstart,
      if_neg (by simp [hne])]
  have hback : (core ++ right).rdropWhile isBlank = core.rdropWhile isBlank := by
    have hright' : AllBlank right.reverse := fun c hc => hright c (List.mem_reverse.mp hc)
    rw [List.rdropWhile, List.reverse_append, List.dropWhile_append_of_pos hright']
    rfl
  rw [trim_eq, hfront, hback, hend]

end

/-! ## Numerals -/

section
variable {cs digits : List Char} {n value : Nat}

/-- The numerals of a number: a plus sign or none, then digits, the first of which may be zeros. -/
inductive Numeral : List Char → Nat → Prop
  | plain {digits : List Char} : digits ≠ [] → (∀ c ∈ digits, c.isDigit = true) →
      Numeral digits (Nat.ofDigitChars 10 digits 0)
  | signed {digits : List Char} : digits ≠ [] → (∀ c ∈ digits, c.isDigit = true) →
      Numeral ('+' :: digits) (Nat.ofDigitChars 10 digits 0)

theorem Numeral.ne_nil (h : Numeral cs n) : cs ≠ [] := by
  cases h with
  | plain hne _ => exact hne
  | signed _ _ => exact List.cons_ne_nil _ _

theorem isBlank_of_isDigit {c : Char} (h : c.isDigit = true) : isBlank c = false := by
  have hrange : 48 ≤ c.toNat ∧ c.toNat ≤ 57 := by
    simpa [Char.isDigit, UInt32.le_iff_toNat_le] using h
  simp only [isBlank, blankRanges, List.any_cons, List.any_nil, Bool.or_eq_false_iff, Bool.and_eq_false_iff,
    decide_eq_false_iff_not, and_true]
  omega

theorem Numeral.not_isBlank (h : Numeral cs n) : ∀ c ∈ cs, isBlank c = false := by
  cases h with
  | plain _ hdigits => exact fun c hc => isBlank_of_isDigit (hdigits c hc)
  | signed _ hdigits =>
    intro c hc
    rcases List.mem_cons.mp hc with rfl | hc
    · decide
    · exact isBlank_of_isDigit (hdigits c hc)

theorem le_ofDigitChars (digits : List Char) (value : Nat) : value ≤ Nat.ofDigitChars 10 digits value := by
  rw [Nat.ofDigitChars_eq_ofDigitChars_zero]
  have hpow : 0 < 10 ^ digits.length := Nat.pow_pos (by decide)
  calc value ≤ 10 ^ digits.length * value := Nat.le_mul_of_pos_left value hpow
    _ ≤ _ := Nat.le_add_right _ _

/-- The number grows with each digit, so it is in range just if it is so at the end. -/
theorem digitsFrom_eq_ok_iff (hvalue : value < numeralBound) :
    digitsFrom value cs = .ok n ↔
      (∀ c ∈ cs, c.isDigit = true) ∧ n = Nat.ofDigitChars 10 cs value ∧ n < numeralBound := by
  induction cs generalizing value with
  | nil =>
    simp only [digitsFrom, Except.ok.injEq, List.not_mem_nil, false_implies, implies_true, true_and,
      Nat.ofDigitChars_nil]
    constructor
    · rintro rfl
      exact ⟨rfl, hvalue⟩
    · rintro ⟨rfl, -⟩
      rfl
  | cons c cs ih =>
    rw [digitsFrom, List.forall_mem_cons, Nat.ofDigitChars_cons, Nat.mul_comm 10 value]
    by_cases hdigit : c.isDigit = true
    · by_cases hnext : value * 10 + (c.toNat - '0'.toNat) < numeralBound
      · simp only [hdigit, if_true, if_pos hnext, ih hnext, true_and]
      · have hgrown := le_ofDigitChars cs (value * 10 + (c.toNat - '0'.toNat))
        simp only [if_pos hdigit, if_neg hnext]
        constructor
        · nofun
        · rintro ⟨-, rfl, hbound⟩
          omega
    · simp [hdigit]

theorem numeral_eq_ok_iff : numeral cs = .ok n ↔ Numeral cs n ∧ n < numeralBound := by
  have hzero : 0 < numeralBound := by decide
  cases cs with
  | nil => exact ⟨nofun, fun h => absurd rfl h.1.ne_nil⟩
  | cons c cs =>
    by_cases hsign : c = '+'
    · subst hsign
      have hnone : ¬ ∀ d ∈ '+' :: cs, d.isDigit = true := fun h => absurd (h '+' (by simp)) (by decide)
      by_cases hempty : cs = []
      · subst hempty
        refine ⟨nofun, fun h => ?_⟩
        cases h.1 with
        | plain _ hdigits => exact absurd hdigits hnone
        | signed hne _ => exact absurd rfl hne
      · have hread : numeral ('+' :: cs) = digitsFrom 0 cs := by simp [numeral, hempty]
        rw [hread, digitsFrom_eq_ok_iff hzero]
        constructor
        · rintro ⟨hdigits, rfl, hbound⟩
          exact ⟨.signed hempty hdigits, hbound⟩
        · rintro ⟨h, hbound⟩
          cases h with
          | plain _ hdigits => exact absurd hdigits hnone
          | signed _ hdigits => exact ⟨hdigits, rfl, hbound⟩
    · have hread : numeral (c :: cs) = digitsFrom 0 (c :: cs) := by simp [numeral, hsign]
      rw [hread, digitsFrom_eq_ok_iff hzero]
      constructor
      · rintro ⟨hdigits, rfl, hbound⟩
        exact ⟨.plain (List.cons_ne_nil c cs) hdigits, hbound⟩
      · rintro ⟨h, hbound⟩
        cases h with
        | plain _ hdigits => exact ⟨hdigits, rfl, hbound⟩
        | signed _ _ => exact absurd rfl hsign

end

end Text

namespace Policy

/-! ## Settings that may be missing -/

section
variable {settings : List Setting} {s : Option Setting}

theorem clean_append_toList :
    Clean (settings ++ s.toList) ↔ Clean settings ∧ ∀ e, ¬ ∃ t ∈ s, Faulty settings t e := by
  cases s <;> simp [clean_concat_iff]

theorem firstFault_append_toList {r : Refusal} :
    FirstFault (settings ++ s.toList) r ↔ FirstFault settings r ∨
      Clean settings ∧ r.index = settings.length ∧ ∃ t ∈ s, Faulty settings t r.error := by
  cases s <;> simp [firstFault_concat_iff]

end

end Policy

namespace Config

/-! ## Numbers -/

section
variable {lookup : String → Option String} {raw : Option String} {value : Option Nat} {e : SetupError}

/-- What the text of a numeric setting stands for: nothing if it is absent or blank, else the number whose
numeral stands between blanks. -/
inductive Reads : Option String → Option Nat → Prop
  | absent : Reads none none
  | blank {text : String} : Text.AllBlank text.toList → Reads (some text) none
  | numeral {text : String} {left core right : List Char} {n : Nat} :
      Text.AllBlank left → Text.AllBlank right → text.toList = left ++ core ++ right →
        Text.Numeral core n → n < 2 ^ 64 → Reads (some text) (some n)

def WellFormed (raw : Option String) : Prop := ∃ value, Reads raw value

/-- The same told from what is left of the text without the blanks at its ends. -/
theorem reads_some_iff {text : String} :
    Reads (some text) value ↔
      (Text.trim text.toList = [] ∧ value = none) ∨
        ∃ n, Text.Numeral (Text.trim text.toList) n ∧ n < 2 ^ 64 ∧ value = some n := by
  constructor
  · intro h
    cases h with
    | blank hblank => exact .inl ⟨Text.trim_eq_nil_iff.mpr hblank, rfl⟩
    | numeral hleft hright htext hcore hbound =>
      have htrim := Text.trim_append hleft hright hcore.not_isBlank hcore.ne_nil
      rw [htext, htrim]
      exact .inr ⟨_, hcore, hbound, rfl⟩
  · rintro (⟨htrim, rfl⟩ | ⟨n, hcore, hbound, rfl⟩)
    · exact .blank (Text.trim_eq_nil_iff.mp htrim)
    · obtain ⟨left, right, hleft, hright, htext⟩ := Text.exists_trim text.toList
      exact .numeral hleft hright htext hcore hbound

theorem number_eq_ok_iff (name : String) : number name raw = .ok value ↔ Reads raw value := by
  cases raw with
  | none =>
    constructor
    · rintro ⟨⟩
      exact .absent
    · rintro ⟨⟩
      rfl
  | some text =>
    have hbound : (2 ^ 64 : Nat) = Text.numeralBound := rfl
    simp only [reads_some_iff, hbound, ← and_assoc, ← Text.numeral_eq_ok_iff, number, List.isEmpty_iff]
    by_cases htrim : Text.trim text.toList = []
    · simp [htrim, Text.numeral, eq_comm]
    · rw [if_neg htrim]
      cases Text.numeral (Text.trim text.toList) <;> simp [htrim, eq_comm]

/-- A refusal tells the name and the text as it stands there. -/
theorem number_eq_error (name : String) (h : number name raw = .error e) :
    ¬ WellFormed raw ∧ ∃ text fault, raw = some text ∧
      Text.numeral (Text.trim text.toList) = .error fault ∧ e = .setting name text fault := by
  refine ⟨?_, ?_⟩
  · rintro ⟨value, hreads⟩
    rw [(number_eq_ok_iff name).mpr hreads] at h
    cases h
  · cases raw with
    | none => cases h
    | some text =>
      simp only [number] at h
      split at h
      · cases h
      · cases hread : Text.numeral (Text.trim text.toList) with
        | ok n =>
          rw [hread] at h
          cases h
        | error fault =>
          rw [hread] at h
          cases h
          exact ⟨text, fault, rfl, hread, rfl⟩

/-! ## Configurations -/

/-- The settings that hold numbers, in the order in which they are read. -/
def numeric : List String :=
  ["CACHE_MAX_SIZE", "CACHE_ENTRY_TTL_SECS", "CACHE_ENTRY_TTI_SECS", "CACHE_SAVE_FREQUENCY_MS"]

/-- The error tells the first number that is not well formed, with its text as it stands there. -/
def FirstIllFormed (lookup : String → Option String) (e : SetupError) : Prop :=
  ∃ before name after text fault, numeric = before ++ name :: after ∧
    (∀ earlier ∈ before, WellFormed (lookup earlier)) ∧ ¬ WellFormed (lookup name) ∧
    lookup name = some text ∧ Text.numeral (Text.trim text.toList) = .error fault ∧
    e = .setting name text fault

/-- The configuration has what the environment says, and the defaults for the rest. -/
structure Describes (lookup : String → Option String) (c : Config) : Prop where
  maxSize : Reads (lookup "CACHE_MAX_SIZE") c.maxSize
  entryTtlSecs : Reads (lookup "CACHE_ENTRY_TTL_SECS") c.entryTtlSecs
  entryTtiSecs : Reads (lookup "CACHE_ENTRY_TTI_SECS") c.entryTtiSecs
  saveFrequencyMs : ∃ frequency, Reads (lookup "CACHE_SAVE_FREQUENCY_MS") frequency ∧
    c.saveFrequencyMs = frequency.getD 5000
  snapshotDir : c.snapshotDir = text (lookup "CACHE_SNAPSHOT_DIR")
  snapshotFile : c.snapshotFile = (text (lookup "CACHE_SNAPSHOT_FILE")).getD "snapcache.json"

theorem FirstIllFormed.of_error (before : List String) {after : List String} {name : String}
    (hsplit : numeric = before ++ name :: after) (hearlier : ∀ earlier ∈ before, WellFormed (lookup earlier))
    (h : number name (lookup name) = .error e) : FirstIllFormed lookup e := by
  obtain ⟨hill, text, fault, hraw, hfault, he⟩ := number_eq_error name h
  exact ⟨before, name, after, text, fault, hsplit, hearlier, hill, hraw, hfault, he⟩

theorem FirstIllFormed.not_wellFormed (h : FirstIllFormed lookup e) :
    ¬ ∀ name ∈ numeric, WellFormed (lookup name) := by
  obtain ⟨before, name, after, -, -, hsplit, -, hill, -⟩ := h
  exact fun hall => hill (hall name (by simp [hsplit]))

theorem FirstIllFormed.kind_eq (h : FirstIllFormed lookup e) : e.kind = .config := by
  obtain ⟨-, -, -, -, -, -, -, -, -, -, rfl⟩ := h
  rfl

theorem Describes.wellFormed {c : Config} (h : Describes lookup c) :
    ∀ name ∈ numeric, WellFormed (lookup name) := by
  obtain ⟨frequency, hfrequency, -⟩ := h.saveFrequencyMs
  simp only [numeric, List.forall_mem_cons, List.not_mem_nil, false_implies, implies_true, and_true]
  exact ⟨⟨_, h.maxSize⟩, ⟨_, h.entryTtlSecs⟩, ⟨_, h.entryTtiSecs⟩, ⟨_, hfrequency⟩⟩

theorem ofLookup_cases (lookup : String → Option String) :
    (∃ c, ofLookup lookup = .ok c ∧ Describes lookup c) ∨
      ∃ e, ofLookup lookup = .error e ∧ FirstIllFormed lookup e := by
  cases hsize : number "CACHE_MAX_SIZE" (lookup "CACHE_MAX_SIZE") with
  | error e =>
    refine .inr ⟨e, ?_, .of_error [] rfl (by simp) hsize⟩
    simp only [ofLookup, hsize]
    rfl
  | ok maxSize =>
    have hread : Reads (lookup "CACHE_MAX_SIZE") maxSize := (number_eq_ok_iff _).mp hsize
    cases hlive : number "CACHE_ENTRY_TTL_SECS" (lookup "CACHE_ENTRY_TTL_SECS") with
    | error e =>
      refine .inr ⟨e, ?_, .of_error ["CACHE_MAX_SIZE"] rfl (by simpa using ⟨_, hread⟩) hlive⟩
      simp only [ofLookup, hsize, hlive]
      rfl
    | ok live =>
      have hread' : Reads (lookup "CACHE_ENTRY_TTL_SECS") live := (number_eq_ok_iff _).mp hlive
      cases hidle : number "CACHE_ENTRY_TTI_SECS" (lookup "CACHE_ENTRY_TTI_SECS") with
      | error e =>
        refine .inr ⟨e, ?_, .of_error ["CACHE_MAX_SIZE", "CACHE_ENTRY_TTL_SECS"] rfl
          (by simpa using ⟨⟨_, hread⟩, ⟨_, hread'⟩⟩) hidle⟩
        simp only [ofLookup, hsize, hlive, hidle]
        rfl
      | ok idle =>
        have hread'' : Reads (lookup "CACHE_ENTRY_TTI_SECS") idle := (number_eq_ok_iff _).mp hidle
        cases hwait : number "CACHE_SAVE_FREQUENCY_MS" (lookup "CACHE_SAVE_FREQUENCY_MS") with
        | error e =>
          refine .inr ⟨e, ?_, .of_error ["CACHE_MAX_SIZE", "CACHE_ENTRY_TTL_SECS", "CACHE_ENTRY_TTI_SECS"] rfl
            (by simpa using ⟨⟨_, hread⟩, ⟨_, hread'⟩, ⟨_, hread''⟩⟩) hwait⟩
          simp only [ofLookup, hsize, hlive, hidle, hwait]
          rfl
        | ok wait =>
          refine .inl ⟨{
            maxSize, entryTtlSecs := live, entryTtiSecs := idle
            saveFrequencyMs := wait.getD 5000
            snapshotDir := text (lookup "CACHE_SNAPSHOT_DIR")
            snapshotFile := (text (lookup "CACHE_SNAPSHOT_FILE")).getD "snapcache.json" }, ?_,
            ⟨hread, hread', hread'', ⟨wait, (number_eq_ok_iff _).mp hwait, rfl⟩, rfl, rfl⟩⟩
          simp only [ofLookup, hsize, hlive, hidle, hwait]
          rfl

theorem Reads.unique {value' : Option Nat} (h : Reads raw value) (h' : Reads raw value') : value = value' := by
  have hread := (number_eq_ok_iff "").mpr h
  rw [(number_eq_ok_iff "").mpr h'] at hread
  cases hread
  rfl

theorem Describes.unique {c c' : Config} (h : Describes lookup c) (h' : Describes lookup c') : c = c' := by
  obtain ⟨frequency, hread, hfrequency⟩ := h.saveFrequencyMs
  obtain ⟨frequency', hread', hfrequency'⟩ := h'.saveFrequencyMs
  cases hread.unique hread'
  cases c
  cases c'
  cases h.maxSize.unique h'.maxSize
  cases h.entryTtlSecs.unique h'.entryTtlSecs
  cases h.entryTtiSecs.unique h'.entryTtiSecs
  cases hfrequency.trans hfrequency'.symm
  cases h.snapshotDir.trans h'.snapshotDir.symm
  cases h.snapshotFile.trans h'.snapshotFile.symm
  rfl

theorem ofLookup_eq_ok_iff {c : Config} : ofLookup lookup = .ok c ↔ Describes lookup c := by
  rcases ofLookup_cases lookup with ⟨c', hok, hdescribes⟩ | ⟨e, herror, hill⟩
  · rw [hok]
    constructor
    · rintro ⟨⟩
      exact hdescribes
    · intro h
      rw [hdescribes.unique h]
  · rw [herror]
    exact ⟨nofun, fun h => absurd h.wellFormed hill.not_wellFormed⟩

theorem FirstIllFormed.unique {e' : SetupError} (h : FirstIllFormed lookup e) (h' : FirstIllFormed lookup e') :
    e = e' := by
  obtain ⟨before, name, after, text, fault, hsplit, hearlier, hill, hraw, hfault, rfl⟩ := h
  obtain ⟨before', name', after', text', fault', hsplit', hearlier', hill', hraw', hfault', rfl⟩ := h'
  have hsame := hsplit.symm.trans hsplit'
  have hprefix : before <+: before' := (prefix_or_of_split hsame).resolve_right fun ⟨middle, hbefore⟩ =>
    hill' (hearlier name' (by simp [hbefore]))
  have hprefix' : before' <+: before := (prefix_or_of_split hsame.symm).resolve_right fun ⟨middle, hbefore⟩ =>
    hill (hearlier' name (by simp [hbefore]))
  cases hprefix.eq_of_length_le hprefix'.length_le
  cases List.append_cancel_left hsame
  cases hraw.symm.trans hraw'
  cases hfault.symm.trans hfault'
  rfl

theorem ofLookup_eq_error_iff : ofLookup lookup = .error e ↔ FirstIllFormed lookup e := by
  rcases ofLookup_cases lookup with ⟨c, hok, hdescribes⟩ | ⟨e', herror, hill⟩
  · rw [hok]
    exact ⟨nofun, fun h => absurd hdescribes.wellFormed h.not_wellFormed⟩
  · rw [herror]
    constructor
    · rintro ⟨⟩
      exact hill
    · intro h
      rw [hill.unique h]

theorem exists_ofLookup_iff : (∃ c, ofLookup lookup = .ok c) ↔ ∀ name ∈ numeric, WellFormed (lookup name) := by
  rcases ofLookup_cases lookup with ⟨c, hok, hdescribes⟩ | ⟨e, herror, hill⟩
  · exact ⟨fun _ => hdescribes.wellFormed, fun _ => ⟨c, hok⟩⟩
  · rw [herror]
    exact ⟨nofun, fun h => absurd h hill.not_wellFormed⟩

end

/-! ## Policies -/

section
variable {c : Config} {p : Policy} {e : SetupError}

/-- No limit that is given is zero, and only one of those on life is given. -/
structure Limits (c : Config) : Prop where
  maxSize : c.maxSize ≠ some 0
  entryTtlSecs : c.entryTtlSecs ≠ some 0
  entryTtiSecs : c.entryTtiSecs ≠ some 0
  one : c.entryTtlSecs = none ∨ c.entryTtiSecs = none

/-- The policy has just the limits that are given, those on life in seconds. -/
structure Carries (c : Config) (p : Policy) : Prop where
  maxSize : p.maxSize = c.maxSize
  timeToLive : p.timeToLive = c.entryTtlSecs.map .ofSecs
  timeToIdle : p.timeToIdle = c.entryTtiSecs.map .ofSecs

/-- What is wrong with limits. A zero is reported before two limits on life, and the size before those. -/
inductive Objection (c : Config) : SetupError → Prop
  | zeroSize : c.maxSize = some 0 → Objection c .zeroMaxSize
  | zeroLive : c.maxSize ≠ some 0 → c.entryTtlSecs = some 0 →
      Objection c (.shortLifetime .timeToLive (.ofSecs 0))
  | zeroIdle : c.maxSize ≠ some 0 → c.entryTtlSecs ≠ some 0 → c.entryTtiSecs = some 0 →
      Objection c (.shortLifetime .timeToIdle (.ofSecs 0))
  | both {live idle : Nat} : c.maxSize ≠ some 0 → c.entryTtlSecs = some live → live ≠ 0 →
      c.entryTtiSecs = some idle → idle ≠ 0 → Objection c (.otherLifetime .timeToIdle (.ofSecs live))

/-- A number of seconds is long enough unless it is zero. -/
theorem shortest_le_ofSecs_iff (n : Nat) : shortestLifetime.nanos ≤ (Duration.ofSecs n).nanos ↔ n ≠ 0 := by
  simp only [shortestLifetime, Duration.ofMillis, Duration.ofSecs]
  omega

def sizeSetting (c : Config) : Option Policy.Setting := c.maxSize.map .maxSize

def liveSetting (c : Config) : Option Policy.Setting :=
  c.entryTtlSecs.map fun n => .lifetime (.timeToLive (.ofSecs n))

def idleSetting (c : Config) : Option Policy.Setting :=
  c.entryTtiSecs.map fun n => .lifetime (.timeToIdle (.ofSecs n))

theorem settings_eq (c : Config) :
    c.settings = c.sizeSetting.toList ++ c.liveSetting.toList ++ c.idleSetting.toList := rfl

theorem holds_settings_iff : Policy.Holds c.settings p ↔ c.Carries p := by
  have hsize : Policy.lastSize c.settings = c.maxSize := by
    rcases c with ⟨_ | size, _ | live, _ | idle, _, _, _⟩ <;> rfl
  have hlive : Policy.lastLimit .timeToLive c.settings = c.entryTtlSecs.map .ofSecs := by
    rcases c with ⟨_ | size, _ | live, _ | idle, _, _, _⟩ <;> rfl
  have hidle : Policy.lastLimit .timeToIdle c.settings = c.entryTtiSecs.map .ofSecs := by
    rcases c with ⟨_ | size, _ | live, _ | idle, _, _, _⟩ <;> rfl
  constructor
  · rintro ⟨h, h', h''⟩
    exact ⟨h.trans hsize, h'.trans hlive, h''.trans hidle⟩
  · rintro ⟨h, h', h''⟩
    exact ⟨h.trans hsize.symm, h'.trans hlive.symm, h''.trans hidle.symm⟩

/-! ### What is wrong with each limit -/

theorem faulty_size_iff :
    (∃ t ∈ c.sizeSetting, Policy.Faulty [] t e) ↔ c.maxSize = some 0 ∧ e = .zeroMaxSize := by
  unfold sizeSetting
  constructor
  · rintro ⟨t, ht, hfault⟩
    obtain ⟨n, hn, rfl⟩ := Option.map_eq_some_iff.mp ht
    cases hfault
    exact ⟨hn, rfl⟩
  · rintro ⟨hsize, rfl⟩
    exact ⟨.maxSize 0, by simp [hsize], .zeroSize⟩

theorem faulty_seconds_iff {before : List Policy.Setting} {l : Lifetime} {n : Nat} (hl : l.limit = .ofSecs n) :
    Policy.Faulty before (.lifetime l) e ↔
      n = 0 ∧ e = .shortLifetime l.kind (.ofSecs 0) ∨
        n ≠ 0 ∧ ∃ present, Policy.lastLimit l.kind.other before = some present ∧
          e = .otherLifetime l.kind present := by
  have hlong : shortestLifetime.nanos ≤ l.limit.nanos ↔ n ≠ 0 := by rw [hl, shortest_le_ofSecs_iff]
  constructor
  · intro h
    cases h with
    | short hshort =>
      have hn : n = 0 := by
        by_contra hne
        exact absurd (hlong.mpr hne) (Nat.not_le.mpr hshort)
      exact .inl ⟨hn, by rw [hl, hn]⟩
    | other hlimit hpresent => exact .inr ⟨hlong.mp hlimit, _, hpresent, rfl⟩
  · rintro (⟨rfl, rfl⟩ | ⟨hn, present, hpresent, rfl⟩)
    · rw [← hl]
      exact .short (Nat.not_le.mp fun h => hlong.mp h rfl)
    · exact .other (hlong.mpr hn) hpresent

theorem faulty_live_iff :
    (∃ t ∈ c.liveSetting, Policy.Faulty c.sizeSetting.toList t e) ↔
      c.entryTtlSecs = some 0 ∧ e = .shortLifetime .timeToLive (.ofSecs 0) := by
  have hidle : Policy.lastLimit .timeToIdle c.sizeSetting.toList = none := by
    unfold sizeSetting
    cases c.maxSize <;> rfl
  unfold liveSetting
  constructor
  · rintro ⟨t, ht, hfault⟩
    obtain ⟨n, hn, rfl⟩ := Option.map_eq_some_iff.mp ht
    rcases (faulty_seconds_iff rfl).mp hfault with ⟨rfl, rfl⟩ | ⟨-, present, hpresent, -⟩
    · exact ⟨hn, rfl⟩
    · exact absurd (hidle.symm.trans hpresent) nofun
  · rintro ⟨hlive, rfl⟩
    exact ⟨.lifetime (.timeToLive (.ofSecs 0)), by simp [hlive], (faulty_seconds_iff rfl).mpr (.inl ⟨rfl, rfl⟩)⟩

theorem faulty_idle_iff :
    (∃ t ∈ c.idleSetting, Policy.Faulty (c.sizeSetting.toList ++ c.liveSetting.toList) t e) ↔
      c.entryTtiSecs = some 0 ∧ e = .shortLifetime .timeToIdle (.ofSecs 0) ∨
        ∃ live idle, c.entryTtlSecs = some live ∧ c.entryTtiSecs = some idle ∧ idle ≠ 0 ∧
          e = .otherLifetime .timeToIdle (.ofSecs live) := by
  have hlive : Policy.lastLimit .timeToLive (c.sizeSetting.toList ++ c.liveSetting.toList) =
      c.entryTtlSecs.map .ofSecs := by
    rcases c with ⟨_ | size, _ | live, _, _, _, _⟩ <;> rfl
  unfold idleSetting
  constructor
  · rintro ⟨t, ht, hfault⟩
    obtain ⟨n, hn, rfl⟩ := Option.map_eq_some_iff.mp ht
    rcases (faulty_seconds_iff rfl).mp hfault with ⟨rfl, rfl⟩ | ⟨hne, present, hpresent, rfl⟩
    · exact .inl ⟨hn, rfl⟩
    · obtain ⟨live, hgiven, rfl⟩ := Option.map_eq_some_iff.mp (hlive.symm.trans hpresent)
      exact .inr ⟨live, n, hgiven, hn, hne, rfl⟩
  · rintro (⟨hidle, rfl⟩ | ⟨live, idle, hgiven, hidle, hne, rfl⟩)
    · exact ⟨.lifetime (.timeToIdle (.ofSecs 0)), by simp [hidle], (faulty_seconds_iff rfl).mpr (.inl ⟨rfl, rfl⟩)⟩
    · refine ⟨.lifetime (.timeToIdle (.ofSecs idle)), by simp [hidle], ?_⟩
      exact (faulty_seconds_iff rfl).mpr (.inr ⟨hne, _, hlive.trans (by rw [hgiven]; rfl), rfl⟩)

theorem clean_size_iff : Policy.Clean c.sizeSetting.toList ↔ c.maxSize ≠ some 0 := by
  rw [← List.nil_append c.sizeSetting.toList, Policy.clean_append_toList]
  simp only [faulty_size_iff, Policy.clean_nil, true_and, not_and, ne_eq]
  exact ⟨fun h hsize => h _ hsize rfl, fun h _ hsize _ => h hsize⟩

theorem clean_live_iff :
    Policy.Clean (c.sizeSetting.toList ++ c.liveSetting.toList) ↔
      c.maxSize ≠ some 0 ∧ c.entryTtlSecs ≠ some 0 := by
  rw [Policy.clean_append_toList, clean_size_iff]
  simp only [faulty_live_iff, not_and, ne_eq]
  exact and_congr_right fun _ => ⟨fun h hlive => h _ hlive rfl, fun h _ hlive _ => h hlive⟩

theorem clean_settings_iff : Policy.Clean c.settings ↔ c.Limits := by
  rw [settings_eq, Policy.clean_append_toList, clean_live_iff]
  simp only [faulty_idle_iff]
  constructor
  · rintro ⟨⟨hsize, hlive⟩, hidle⟩
    have hzero : c.entryTtiSecs ≠ some 0 := fun h => hidle _ (.inl ⟨h, rfl⟩)
    refine ⟨hsize, hlive, hzero, ?_⟩
    cases hgiven : c.entryTtlSecs with
    | none => exact .inl rfl
    | some live =>
      cases hgiven' : c.entryTtiSecs with
      | none => exact .inr rfl
      | some idle =>
        have hne : idle ≠ 0 := fun h => hzero (by rw [hgiven', h])
        exact absurd (.inr ⟨live, idle, hgiven, hgiven', hne, rfl⟩) (hidle _)
  · rintro ⟨hsize, hlive, hzero, hone⟩
    refine ⟨⟨hsize, hlive⟩, ?_⟩
    rintro e (⟨h, -⟩ | ⟨live, idle, hgiven, hgiven', -, -⟩)
    · exact hzero h
    · rcases hone with h | h
      · exact absurd (h.symm.trans hgiven) nofun
      · exact absurd (h.symm.trans hgiven') nofun

theorem firstFault_size_iff {r : Policy.Refusal} :
    Policy.FirstFault c.sizeSetting.toList r ↔ r.index = 0 ∧ c.maxSize = some 0 ∧ r.error = .zeroMaxSize := by
  rw [← List.nil_append c.sizeSetting.toList, Policy.firstFault_append_toList]
  simp only [faulty_size_iff, Policy.clean_nil, Policy.firstFault_nil, true_and, false_or, List.length_nil]

/-- Some setting is the first that is at fault, with this error, just if there is this to object. -/
theorem firstFault_settings_iff : (∃ index, Policy.FirstFault c.settings ⟨index, e⟩) ↔ c.Objection e := by
  rw [settings_eq]
  simp only [Policy.firstFault_append_toList, firstFault_size_iff, faulty_live_iff, faulty_idle_iff,
    clean_live_iff, clean_size_iff]
  constructor
  · rintro ⟨-, (⟨-, hsize, rfl⟩ | ⟨hsize, -, hlive, rfl⟩) | ⟨⟨hsize, hlive⟩, -, hidle⟩⟩
    · exact .zeroSize hsize
    · exact .zeroLive hsize hlive
    · rcases hidle with ⟨hidle, rfl⟩ | ⟨live, idle, hgiven, hidle, hne, rfl⟩
      · exact .zeroIdle hsize hlive hidle
      · exact .both hsize hgiven (fun h => hlive (by rw [hgiven, h])) hidle hne
  · intro h
    cases h with
    | zeroSize hsize => exact ⟨_, .inl (.inl ⟨rfl, hsize, rfl⟩)⟩
    | zeroLive hsize hlive => exact ⟨_, .inl (.inr ⟨hsize, rfl, hlive, rfl⟩)⟩
    | zeroIdle hsize hlive hidle => exact ⟨_, .inr ⟨⟨hsize, hlive⟩, rfl, .inl ⟨hidle, rfl⟩⟩⟩
    | both hsize hgiven hlive hidle hne =>
      have hgiven' : c.entryTtlSecs ≠ some 0 := fun h => hlive (Option.some.inj (hgiven.symm.trans h))
      exact ⟨_, .inr ⟨⟨hsize, hgiven'⟩, rfl, .inr ⟨_, _, hgiven, hidle, hne, rfl⟩⟩⟩

theorem policy_eq_ok_iff : c.policy = .ok p ↔ c.Limits ∧ c.Carries p := by
  rw [← clean_settings_iff, ← holds_settings_iff, ← Policy.ofSettings_eq_ok_iff, policy]
  cases Policy.ofSettings c.settings with
  | ok q => simp [Except.mapError]
  | error r => simp [Except.mapError]

theorem policy_eq_error_iff : c.policy = .error e ↔ c.Objection e := by
  rw [← firstFault_settings_iff, policy]
  simp only [← Policy.ofSettings_eq_error_iff]
  cases Policy.ofSettings c.settings with
  | ok q => simp [Except.mapError]
  | error r =>
    obtain ⟨index, error⟩ := r
    simp [Except.mapError]

theorem Objection.not_limits (h : c.Objection e) : ¬ c.Limits := by
  intro hlimits
  cases h with
  | zeroSize hsize => exact hlimits.maxSize hsize
  | zeroLive _ hlive => exact hlimits.entryTtlSecs hlive
  | zeroIdle _ _ hidle => exact hlimits.entryTtiSecs hidle
  | both _ hlive _ hidle _ =>
    rcases hlimits.one with h | h
    · exact absurd (h.symm.trans hlive) nofun
    · exact absurd (h.symm.trans hidle) nofun

theorem exists_policy_iff : (∃ p, c.policy = .ok p) ↔ c.Limits := by
  constructor
  · rintro ⟨p, h⟩
    exact (policy_eq_ok_iff.mp h).1
  · intro hlimits
    cases h : c.policy with
    | ok p => exact ⟨p, rfl⟩
    | error e => exact absurd hlimits (policy_eq_error_iff.mp h).not_limits

/-- The limits that are given. -/
def limits (c : Config) : List (Option Nat) := [c.maxSize, c.entryTtlSecs, c.entryTtiSecs]

theorem Objection.kind_eq (h : c.Objection e) :
    some 0 ∈ c.limits ∧ e.kind = .invalidArgument ∨ some 0 ∉ c.limits ∧ e.kind = .invalidState := by
  cases h with
  | zeroSize hsize => exact .inl ⟨by simp [limits, hsize], rfl⟩
  | zeroLive _ hlive => exact .inl ⟨by simp [limits, hlive], rfl⟩
  | zeroIdle _ _ hidle => exact .inl ⟨by simp [limits, hidle], rfl⟩
  | both hsize hlive hne hidle hne' =>
    exact .inr ⟨by simp [limits, hlive, hidle, Ne.symm hsize, hne.symm, hne'.symm], rfl⟩

/-! ## From an environment to a policy -/

/-- What comes of an environment: a configuration or an error, and of the configuration a policy or an error. -/
structure Interpreted (lookup : String → Option String) : Prop where
  read_iff : (∃ c, ofLookup lookup = .ok c) ↔ ∀ name ∈ numeric, WellFormed (lookup name)
  config_iff (c : Config) : ofLookup lookup = .ok c ↔ Describes lookup c
  unread_iff (e : SetupError) : ofLookup lookup = .error e ↔ FirstIllFormed lookup e
  unread_kind {e : SetupError} : ofLookup lookup = .error e → e.kind = .config
  made_iff {c : Config} : ofLookup lookup = .ok c → ((∃ p, c.policy = .ok p) ↔ c.Limits)
  carries {c : Config} {p : Policy} : ofLookup lookup = .ok c → c.policy = .ok p → c.Carries p
  refused_iff {c : Config} (e : SetupError) : ofLookup lookup = .ok c → (c.policy = .error e ↔ c.Objection e)
  refused_kind {c : Config} {e : SetupError} : ofLookup lookup = .ok c → c.policy = .error e →
    some 0 ∈ c.limits ∧ e.kind = .invalidArgument ∨ some 0 ∉ c.limits ∧ e.kind = .invalidState

/-- Every environment is read by the grammar of its numbers, and makes a policy by what the limits are. -/
theorem interpreted (lookup : String → Option String) : Interpreted lookup where
  read_iff := exists_ofLookup_iff
  config_iff _ := ofLookup_eq_ok_iff
  unread_iff _ := ofLookup_eq_error_iff
  unread_kind h := (ofLookup_eq_error_iff.mp h).kind_eq
  made_iff _ := exists_policy_iff
  carries _ h := (policy_eq_ok_iff.mp h).2
  refused_iff _ _ := policy_eq_error_iff
  refused_kind _ h := (policy_eq_error_iff.mp h).kind_eq

/-- Leading zeros do no harm. -/
example : number "CACHE_MAX_SIZE" (some "\u00a0+0010 ") = .ok (some 10) := by decide

end

end Config

end ExpiringCache
