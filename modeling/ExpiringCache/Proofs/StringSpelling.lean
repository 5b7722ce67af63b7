import ExpiringCache.Json.Text
import ExpiringCache.Proofs.Utf8
import Mathlib.Tactic.SplitIfs

/-!
The ways to spell a string between quotes. A character stands for itself, or a letter or a number stands for it after
a backslash; past the reach of one number it takes two. Main statement: whichever way is chosen, the reader finds the
string that was meant. What is only passed over may hold any numbers.
-/
namespace ExpiringCache.Json
set_option autoImplicit false

open Text (ascii encode encodeChar)

/-! ## Spellings -/

/-- A byte that stands for itself inside quotes. -/
def isPlain (b : UInt8) : Bool := b ≠ ascii '"' && b ≠ ascii '\\' && !(b < 0x20)

/-- The letters that may follow a backslash, with the characters that they stand for. -/
def letterEscapes : List (Char × Char) :=
  [('"', '"'), ('\\', '\\'), ('/', '/'), ('b', '\x08'), ('f', '\x0c'), ('n', '\n'), ('r', '\r'), ('t', '\t')]

/-- A hexadecimal digit, its letter large or small. -/
def HexDigit (d : Nat) (b : UInt8) : Prop :=
  d < 16 ∧ (b = ascii (Nat.digitChar d) ∨ b = ascii (Nat.digitChar d).toUpper)

/-- A number of four hexadecimal digits. -/
inductive FourDigits : Nat → Bytes → Prop
  | mk {a b c d : Nat} {x y z w : UInt8} : HexDigit a x → HexDigit b y → HexDigit c z → HexDigit d w →
      FourDigits (((a * 16 + b) * 16 + c) * 16 + d) [x, y, z, w]

/-- The ways to write one character. -/
inductive CharText : Char → Bytes → Prop
  | plain {c : Char} : 0x20 ≤ c.toNat → c ≠ '"' → c ≠ '\\' → CharText c (encodeChar c)
  | letter {letter c : Char} : (letter, c) ∈ letterEscapes → CharText c [ascii '\\', ascii letter]
  | number {c : Char} {ds : Bytes} : FourDigits c.toNat ds → CharText c (ascii '\\' :: ascii 'u' :: ds)
  /-- the two numbers lie in ranges that belong to no character -/
  | pair {c : Char} {high low : Nat} {ds es : Bytes} : high < 0x400 → low < 0x400 →
      c.toNat = 0x10000 + high * 0x400 + low → FourDigits (0xd800 + high) ds → FourDigits (0xdc00 + low) es →
      CharText c (ascii '\\' :: ascii 'u' :: ds ++ ascii '\\' :: ascii 'u' :: es)

inductive CharsText : List Char → Bytes → Prop
  | nil : CharsText [] []
  | cons {c : Char} {cs : List Char} {s r : Bytes} : CharText c s → CharsText cs r → CharsText (c :: cs) (s ++ r)

/-- The ways to write a string, in its quotes. -/
def StringText (t : String) (s : Bytes) : Prop :=
  ∃ body, CharsText t.toList body ∧ s = ascii '"' :: (body ++ [ascii '"'])

/-- What may stand between quotes where no one asks which characters are meant. -/
inductive AnyChars : Bytes → Prop
  | nil : AnyChars []
  | plain {b : UInt8} {r : Bytes} : isPlain b = true → AnyChars r → AnyChars (b :: r)
  | letter {letter c : Char} {r : Bytes} : (letter, c) ∈ letterEscapes → AnyChars r →
      AnyChars (ascii '\\' :: ascii letter :: r)
  | number {n : Nat} {ds r : Bytes} : FourDigits n ds → AnyChars r → AnyChars (ascii '\\' :: ascii 'u' :: (ds ++ r))

def AnyString (s : Bytes) : Prop := ∃ body, AnyChars body ∧ s = ascii '"' :: (body ++ [ascii '"'])

/-! ## Numbers after a backslash -/

theorem hexDigit_digitChar : ∀ d < 16, hexDigit (ascii (Nat.digitChar d)) = some d ∧
    hexDigit (ascii (Nat.digitChar d).toUpper) = some d := by
  decide

theorem HexDigit.hexDigit_eq {d : Nat} {b : UInt8} (h : HexDigit d b) : hexDigit b = some d := by
  obtain ⟨hd, rfl | rfl⟩ := h
  · exact (hexDigit_digitChar d hd).1
  · exact (hexDigit_digitChar d hd).2

theorem FourDigits.hexValue_eq {n : Nat} {ds : Bytes} (h : FourDigits n ds) : hexValue ds = some n := by
  cases h with
  | mk ha hb hc hd =>
    simp only [hexValue, hexValueFrom, ha.hexDigit_eq, hb.hexDigit_eq, hc.hexDigit_eq, hd.hexDigit_eq, Nat.zero_mul,
      Nat.zero_add]

/-- Four digits are read to their end before anyone asks what they are worth. -/
theorem scan_fourDigits {n : Nat} {ds : Bytes} (h : FourDigits n ds) (strict : Bool) (lead : Option Nat) (s : Bytes) :
    scan strict (.numeric lead []) (ds ++ s) =
      if strict then
        match afterNumeric lead n with
        | .ok (added, next) => push added (scan strict next s)
        | .error f => .error f
      else scan strict .plain s := by
  have hvalue := h.hexValue_eq
  cases h with
  | @mk _ _ _ _ x y z w ha hb hc hd =>
    have hdigits : [] ++ [x] ++ [y] ++ [z] ++ [w] = [x, y, z, w] := rfl
    simp only [List.cons_append, List.nil_append]
    rw [scan, if_pos (by simp), scan, if_pos (by simp), scan, if_pos (by simp), scan, if_neg (by simp), hdigits]
    generalize hexValue [x, y, z, w] = value at hvalue
    cases hvalue
    rfl

/-! ## Reading a spelling -/

theorem push_nil (x : Except Fault (Bytes × Bytes)) : push [] x = x := by
  rcases x with _ | ⟨_, _⟩ <;> rfl

theorem push_push (a b : Bytes) (x : Except Fault (Bytes × Bytes)) :
    push a (push b x) = push (a ++ b) x := by
  rcases x with _ | ⟨text, rest⟩
  · rfl
  · simp only [push, List.append_assoc]

theorem push_eq_ok {added : Bytes} {x : Except Fault (Bytes × Bytes)} {text r : Bytes}
    (h : push added x = .ok (text, r)) : ∃ body, x = .ok (body, r) ∧ text = added ++ body := by
  rcases x with _ | ⟨body, rest⟩
  · cases h
  · cases h
    exact ⟨body, rfl, rfl⟩

theorem scan_byte {b : UInt8} (h : isPlain b = true) (strict : Bool) (s : Bytes) :
    scan strict .plain (b :: s) = push [b] (scan strict .plain s) := by
  simp only [isPlain, Bool.and_eq_true, decide_eq_true_eq, Bool.not_eq_true', decide_eq_false_iff_not, ne_eq] at h
  obtain ⟨⟨hquote, hslash⟩, hcontrol⟩ := h
  rw [scan, if_neg hquote, if_neg hslash, if_neg hcontrol]

theorem scan_plain {bs : Bytes} (h : ∀ b ∈ bs, isPlain b = true) (strict : Bool) (s : Bytes) :
    scan strict .plain (bs ++ s) = push bs (scan strict .plain s) := by
  induction bs with
  | nil => exact (push_nil _).symm
  | cons b bs ih =>
    rw [List.cons_append, scan_byte (h b (List.mem_cons_self ..)), ih fun x hx => h x (List.mem_cons_of_mem b hx),
      push_push]
    rfl

theorem scan_slash (strict : Bool) (s : Bytes) :
    scan strict .plain (ascii '\\' :: s) = scan strict .escape s := by
  rw [scan, if_neg (by decide), if_pos rfl]

theorem scan_unicode (strict : Bool) (s : Bytes) :
    scan strict .plain (ascii '\\' :: ascii 'u' :: s) = scan strict (.numeric none []) s := by
  rw [scan_slash, scan, if_pos rfl]

theorem letterEscapes_spec : ∀ x ∈ letterEscapes, letterEscape (ascii x.1) = some (ascii x.2) ∧
    ascii x.1 ≠ ascii 'u' ∧ encodeChar x.2 = [ascii x.2] := by
  decide

theorem scan_letter {letter c : Char} (h : (letter, c) ∈ letterEscapes) (strict : Bool) (s : Bytes) :
    scan strict .plain (ascii '\\' :: ascii letter :: s) = push (encodeChar c) (scan strict .plain s) := by
  obtain ⟨hletter, hu, hencode⟩ := letterEscapes_spec (letter, c) h
  rw [scan_slash, scan, if_neg hu, hletter, hencode]

theorem isPlain_ofNat {n : Nat} (hn : n < 0x100) (hcontrol : 0x20 ≤ n) (hquote : n ≠ 0x22)
    (hslash : n ≠ 0x5c) : isPlain (UInt8.ofNat n) = true := by
  have h1 : UInt8.ofNat n ≠ ascii '"' := fun h => hquote ((Text.ofNat_eq_iff hn (by decide)).mp h)
  have h2 : UInt8.ofNat n ≠ ascii '\\' := fun h => hslash ((Text.ofNat_eq_iff hn (by decide)).mp h)
  have h3 : ¬ UInt8.ofNat n < (0x20 : UInt8) := Text.not_ofNat_lt 0x20 hcontrol hn
  simp only [isPlain, h1, h2, h3, ne_eq, not_false_eq_true, decide_true, decide_false,
    Bool.not_false, Bool.and_self]

/-- All but quotes, backslashes and control characters stand for themselves. -/
theorem isPlain_encodeChar {c : Char} (hcontrol : 0x20 ≤ c.toNat) (hquote : c ≠ '"') (hslash : c ≠ '\\') :
    ∀ b ∈ encodeChar c, isPlain b = true := by
  have hvalid := Text.valid_toNat c
  have hquote : c.toNat ≠ 0x22 := fun h => hquote (Char.toNat_inj.mp h)
  have hslash : c.toNat ≠ 0x5c := fun h => hslash (Char.toNat_inj.mp h)
  have hhigh : ∀ m, 0x80 ≤ m → m < 0x100 → isPlain (UInt8.ofNat m) = true := fun m hlow hm =>
    isPlain_ofNat hm (by omega) (by omega) (by omega)
  intro b hb
  unfold encodeChar at hb
  generalize c.toNat = n at hvalid hcontrol hquote hslash hb
  simp only at hb
  split at hb
  · rw [List.mem_singleton.mp hb]
    exact isPlain_ofNat (by omega) hcontrol hquote hslash
  · split at hb
    · simp only [List.mem_cons, List.not_mem_nil, or_false] at hb
      rcases hb with rfl | rfl <;> exact hhigh _ (by omega) (by omega)
    · split at hb
      · simp only [List.mem_cons, List.not_mem_nil, or_false] at hb
        rcases hb with rfl | rfl | rfl <;> exact hhigh _ (by omega) (by omega)
      · simp only [List.mem_cons, List.not_mem_nil, or_false] at hb
        rcases hb with rfl | rfl | rfl | rfl <;> exact hhigh _ (by omega) (by omega)

theorem isLeading_iff {n : Nat} : isLeading n = true ↔ 0xd800 ≤ n ∧ n ≤ 0xdbff := by
  simp [isLeading]

theorem isTrailing_iff {n : Nat} : isTrailing n = true ↔ 0xdc00 ≤ n ∧ n ≤ 0xdfff := by
  simp [isTrailing]

/-- A number that belongs to a character. -/
theorem afterNumeric_char (c : Char) : afterNumeric none c.toNat = .ok (encodeChar c, .plain) := by
  have hvalid := Text.valid_toNat c
  have htrailing : ¬ isTrailing c.toNat = true := by
    rw [isTrailing_iff]
    omega
  have hleading : ¬ isLeading c.toNat = true := by
    rw [isLeading_iff]
    omega
  rw [afterNumeric, if_neg htrailing, if_neg hleading, Char.ofNat_toNat]

theorem afterNumeric_high {high : Nat} (h : high < 0x400) :
    afterNumeric none (0xd800 + high) = .ok ([], .paired (0xd800 + high)) := by
  have htrailing : ¬ isTrailing (0xd800 + high) = true := by
    rw [isTrailing_iff]
    omega
  have hleading : isLeading (0xd800 + high) = true := isLeading_iff.mpr (by omega)
  rw [afterNumeric, if_neg htrailing, if_pos hleading]

theorem afterNumeric_low {c : Char} {high low : Nat} (h : low < 0x400)
    (hc : c.toNat = 0x10000 + high * 0x400 + low) :
    afterNumeric (some (0xd800 + high)) (0xdc00 + low) = .ok (encodeChar c, .plain) := by
  have htrailing : isTrailing (0xdc00 + low) = true := isTrailing_iff.mpr (by omega)
  rw [afterNumeric, if_pos htrailing, Nat.add_sub_cancel_left, Nat.add_sub_cancel_left, ← hc, Char.ofNat_toNat]

/-- However a character is written, its bytes are found. -/
theorem CharText.scan_eq {c : Char} {s : Bytes} (h : CharText c s) (r : Bytes) :
    scan true .plain (s ++ r) = push (encodeChar c) (scan true .plain r) := by
  cases h with
  | plain hcontrol hquote hslash => exact scan_plain (isPlain_encodeChar hcontrol hquote hslash) true r
  | letter hletter => exact scan_letter hletter true r
  | number hds =>
    rw [List.cons_append, List.cons_append, scan_unicode, scan_fourDigits hds, if_pos rfl, afterNumeric_char]
  | pair hhigh hlow hc hds hes =>
    rw [List.append_assoc, List.cons_append, List.cons_append, scan_unicode, scan_fourDigits hds, if_pos rfl,
      afterNumeric_high hhigh]
    simp only [push_nil, List.cons_append]
    rw [scan, if_pos rfl, scan, if_pos rfl, scan_fourDigits hes, if_pos rfl, afterNumeric_low hlow hc]

theorem CharsText.scan_eq {cs : List Char} {s : Bytes} (h : CharsText cs s) (r : Bytes) :
    scan true .plain (s ++ ascii '"' :: r) = .ok (encode cs, r) := by
  induction h with
  | nil => rw [List.nil_append, scan, if_pos rfl, encode, List.flatMap_nil]
  | cons hc _ ih =>
    rw [List.append_assoc, hc.scan_eq, ih]
    rfl

/-- The reader finds the string whichever way it is spelled. -/
theorem StringText.stringBody_eq {t : String} {s : Bytes} (h : StringText t s) :
    ∃ body, s = ascii '"' :: body ∧ ∀ r, stringBody (body ++ r) = .ok (t, r) := by
  obtain ⟨body, hbody, rfl⟩ := h
  refine ⟨body ++ [ascii '"'], rfl, fun r => ?_⟩
  rw [List.append_assoc, List.cons_append, List.nil_append, stringBody, hbody.scan_eq]
  simp only [Text.decode_encode, String.ofList_toList]

/-! ## Passing over a string -/

theorem AnyChars.plain_append {bs r : Bytes} (h : ∀ b ∈ bs, isPlain b = true) (hr : AnyChars r) :
    AnyChars (bs ++ r) := by
  induction bs with
  | nil => exact hr
  | cons b bs ih => exact .plain (h b (List.mem_cons_self ..)) (ih fun x hx => h x (List.mem_cons_of_mem b hx))

theorem CharText.anyChars {c : Char} {s : Bytes} (h : CharText c s) {r : Bytes} (hr : AnyChars r) :
    AnyChars (s ++ r) := by
  cases h with
  | plain hcontrol hquote hslash => exact AnyChars.plain_append (isPlain_encodeChar hcontrol hquote hslash) hr
  | letter hletter => exact .letter hletter hr
  | number hds => exact .number hds hr
  | pair _ _ _ hds hes =>
    rw [List.append_assoc]
    exact .number hds (.number hes hr)

theorem CharsText.anyChars {cs : List Char} {s : Bytes} (h : CharsText cs s) : AnyChars s := by
  induction h with
  | nil => exact .nil
  | cons hc _ ih => exact hc.anyChars ih

theorem StringText.anyString {t : String} {s : Bytes} (h : StringText t s) : AnyString s := by
  obtain ⟨body, hbody, rfl⟩ := h
  exact ⟨body, hbody.anyChars, rfl⟩

theorem AnyChars.scan_eq {s : Bytes} (h : AnyChars s) (r : Bytes) :
    ∃ text, scan false .plain (s ++ ascii '"' :: r) = .ok (text, r) := by
  induction h with
  | nil => exact ⟨[], by rw [List.nil_append, scan, if_pos rfl]⟩
  | plain hb _ ih =>
    obtain ⟨text, hscan⟩ := ih
    exact ⟨_, by rw [List.cons_append, scan_byte hb, hscan, push]⟩
  | letter hletter _ ih =>
    obtain ⟨text, hscan⟩ := ih
    exact ⟨_, by rw [List.cons_append, List.cons_append, scan_letter hletter, hscan, push]⟩
  | number hds _ ih =>
    obtain ⟨text, hscan⟩ := ih
    refine ⟨text, ?_⟩
    rw [List.cons_append, List.cons_append, List.append_assoc, scan_unicode, scan_fourDigits hds,
      if_neg Bool.false_ne_true, hscan]

theorem AnyString.skipString_eq {s : Bytes} (h : AnyString s) :
    ∃ body, s = ascii '"' :: body ∧ ∀ r, skipString (body ++ r) = .ok r := by
  obtain ⟨body, hbody, rfl⟩ := h
  refine ⟨body ++ [ascii '"'], rfl, fun r => ?_⟩
  obtain ⟨text, hscan⟩ := hbody.scan_eq r
  rw [List.append_assoc, List.cons_append, List.nil_append, skipString, hscan]

/-- Where the reader stands if it does not look for pairs. -/
def Scan.unpaired : Scan → Scan
  | .plain => .plain
  | .escape => .escape
  | .numeric _ ds => .numeric none ds
  | .paired _ => .plain
  | .pairedEscape _ => .escape

theorem unpaired_afterNumeric {lead : Option Nat} {n : Nat} {added : Bytes} {next : Scan}
    (h : afterNumeric lead n = .ok (added, next)) : next.unpaired = .plain := by
  cases lead with
  | none =>
    rw [afterNumeric] at h
    split_ifs at h
    · cases h
      rfl
    · cases h
      rfl
  | some first =>
    rw [afterNumeric] at h
    split_ifs at h
    generalize Text.encodeChar _ = bytes at h
    cases h
    rfl

/-- What is read between quotes can be passed over, and it ends at the same place. -/
theorem scan_unpaired {st : Scan} {s text r : Bytes} (h : scan true st s = .ok (text, r)) :
    ∃ text', scan false st.unpaired s = .ok (text', r) := by
  induction s generalizing st text with
  | nil => cases st <;> cases h
  | cons b s ih =>
    have hpush : ∀ {added next text}, push added (scan true next s) = .ok (text, r) →
        ∃ text', scan false next.unpaired s = .ok (text', r) := by
      intro added next text hok
      obtain ⟨body, hbody, -⟩ := push_eq_ok hok
      exact ih hbody
    cases st with
    | plain =>
      rw [scan] at h
      rw [Scan.unpaired, scan]
      split_ifs at h ⊢
      · cases h
        exact ⟨[], rfl⟩
      · exact ih h
      · obtain ⟨text', htext⟩ := hpush h
        exact ⟨[b] ++ text', congrArg (push [b]) htext⟩
    | escape =>
      rw [scan] at h
      rw [Scan.unpaired, scan]
      split_ifs at h ⊢
      · exact ih h
      · split at h
        · rename_i letter hletter
          obtain ⟨text', htext⟩ := hpush h
          exact ⟨[letter] ++ text', congrArg (push [letter]) htext⟩
        · cases h
    | numeric lead ds =>
      simp only [scan, if_true] at h
      simp only [Scan.unpaired, scan, Bool.false_eq_true, if_false]
      split_ifs at h ⊢
      · exact ih h
      · split at h
        · cases h
        · split at h
          · rename_i hafter
            have hnext := hpush h
            rw [unpaired_afterNumeric hafter] at hnext
            exact hnext
          · cases h
    | paired lead =>
      rw [scan] at h
      split_ifs at h with hslash
      rw [Scan.unpaired, hslash, scan_slash]
      exact ih h
    | pairedEscape lead =>
      rw [scan] at h
      rw [Scan.unpaired, scan]
      split_ifs at h ⊢
      exact ih h

theorem skipString_of_stringBody {s : Bytes} {t : String} {r : Bytes} (h : stringBody s = .ok (t, r)) :
    skipString s = .ok r := by
  rw [stringBody] at h
  split at h
  · cases h
  · rename_i text rest hscan
    obtain ⟨text', hskip⟩ := scan_unpaired hscan
    split at h
    · cases h
      rw [Scan.unpaired] at hskip
      rw [skipString, hskip]
    · cases h

end ExpiringCache.Json
