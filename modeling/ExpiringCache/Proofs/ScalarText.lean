import ExpiringCache.Proofs.NumberSpelling
import ExpiringCache.Proofs.StringSpelling
import ExpiringCache.Snapshot.Scalar

/-!
Keys and values as a snapshot writes them, read back: strings with their escapes, whole numbers, and
strings that may be absent.
-/
namespace ExpiringCache
set_option autoImplicit false

open Text (ascii encode encodeChar)

/-! ## Strings -/

namespace Scalar

open Json (CharText CharsText FourDigits HexDigit StringText)

theorem encodeChar_digitChar : ∀ d < 16, encodeChar (Nat.digitChar d) = [ascii (Nat.digitChar d)] := by
  decide

theorem fourDigits_hexByte {n : Nat} (h : n < 0x100) :
    FourDigits n (ascii '0' :: ascii '0' :: encode (hexByte n)) := by
  have hdigit : ∀ {d : Nat}, d < 16 → HexDigit d (ascii (Nat.digitChar d)) := fun hd => ⟨hd, .inl rfl⟩
  have hhigh : n / 16 < 16 := Nat.div_lt_of_lt_mul h
  have hlow : n % 16 < 16 := Nat.mod_lt n (by decide)
  have hencode : encode (hexByte n) = [ascii (Nat.digitChar (n / 16)), ascii (Nat.digitChar (n % 16))] := by
    simp only [hexByte, encode, List.flatMap_cons, List.flatMap_nil, encodeChar_digitChar _ hhigh,
      encodeChar_digitChar _ hlow]
    rfl
  have hvalue : ((0 * 16 + 0) * 16 + n / 16) * 16 + n % 16 = n := by omega
  have hfour := FourDigits.mk (hdigit (Nat.zero_lt_succ 15)) (hdigit (Nat.zero_lt_succ 15)) (hdigit hhigh) (hdigit hlow)
  rw [hvalue] at hfour
  rw [hencode]
  exact hfour

/-- The escape that is written is one of those that may be read. -/
theorem charText_escapeChar (c : Char) : CharText c (encode (escapeChar c)) := by
  by_cases hshort : c ∈ ['"', '\\', '\x08', '\x0c', '\n', '\r', '\t']
  · simp only [List.mem_cons, List.not_mem_nil, or_false] at hshort
    rcases hshort with rfl | rfl | rfl | rfl | rfl | rfl | rfl <;> exact .letter (by decide)
  · simp only [List.mem_cons, List.not_mem_nil, or_false, not_or] at hshort
    obtain ⟨hquote, hslash, hback, hfeed, hline, hreturn, htab⟩ := hshort
    unfold escapeChar
    rw [if_neg hquote, if_neg hslash, if_neg hback, if_neg hfeed, if_neg hline, if_neg hreturn,
      if_neg htab]
    split
    · rename_i hcontrol
      exact .number (fourDigits_hexByte (by omega))
    · rename_i hcontrol
      have hsingle : encode [c] = encodeChar c := List.append_nil _
      rw [hsingle]
      exact .plain (by omega) hquote hslash

theorem charsText_escaped (cs : List Char) : CharsText cs (encode (cs.flatMap escapeChar)) := by
  induction cs with
  | nil => exact .nil
  | cons c cs ih =>
    rw [List.flatMap_cons, encode, List.flatMap_append]
    exact .cons (charText_escapeChar c) ih

theorem stringText_writeString (t : String) : StringText t (writeString t) := by
  refine ⟨encode (t.toList.flatMap escapeChar), charsText_escaped t.toList, ?_⟩
  rw [writeString, encode, List.cons_append, List.flatMap_cons, List.flatMap_append]
  rfl

theorem stringBody_writeString (t : String) (s : Bytes) :
    ∃ body, writeString t = ascii '"' :: body ∧ Json.stringBody (body ++ s) = .ok (t, s) := by
  obtain ⟨body, hwrite, hread⟩ := (stringText_writeString t).stringBody_eq
  exact ⟨body, hwrite, hread s⟩

end Scalar

/-! ## Whole numbers -/

namespace Json

theorem le_decimalFrom (value : Nat) (ds : List Nat) :
    value ≤ ds.foldl (fun n d => n * 10 + d) value := by
  induction ds generalizing value with
  | nil => exact Nat.le_refl value
  | cons d ds ih =>
    have hrest := ih (value * 10 + d)
    rw [List.foldl_cons]
    omega

theorem accumulate_of_lt {value : Nat} {ds : List Nat}
    (h : ds.foldl (fun n d => n * 10 + d) value < 0x10000000000000000) :
    accumulate value ds = (ds.foldl (fun n d => n * 10 + d) value, []) := by
  induction ds generalizing value with
  | nil => rfl
  | cons d ds ih =>
    have hle := le_decimalFrom (value * 10 + d) ds
    rw [List.foldl_cons] at h ⊢
    rw [accumulate, if_pos (by omega)]
    exact ih h

end Json

namespace Scalar

open Json (isDigit digitValue Ends)

def digitByte (d : Nat) : UInt8 := UInt8.ofNat (48 + d)

theorem digitByte_spec : ∀ d < 10, encode [Nat.digitChar d] = [digitByte d] ∧
    isDigit (digitByte d) = true ∧ digitValue (digitByte d) = d ∧
      (digitByte d = ascii '0' → d = 0) := by
  decide

theorem writeNat_of_lt {n : Nat} (h : n < 10) : writeNat n = [digitByte n] := by
  rw [writeNat, Nat.toDigits_of_lt_base h, (digitByte_spec n h).1]

theorem writeNat_of_le {n : Nat} (h : 10 ≤ n) :
    writeNat n = writeNat (n / 10) ++ [digitByte (n % 10)] := by
  have hdigit := (digitByte_spec (n % 10) (Nat.mod_lt n (by decide))).1
  rw [writeNat, Nat.toDigits_of_base_le (by decide) h, encode, List.flatMap_append, ← hdigit]
  rfl

theorem isDigit_writeNat (n : Nat) : ∀ b ∈ writeNat n, isDigit b = true := by
  induction n using Nat.strongRecOn with
  | ind n ih =>
    intro b hb
    by_cases hsmall : n < 10
    · rw [writeNat_of_lt hsmall, List.mem_singleton] at hb
      rw [hb]
      exact (digitByte_spec n hsmall).2.1
    · rw [writeNat_of_le (by omega), List.mem_append, List.mem_singleton] at hb
      rcases hb with hb | rfl
      · exact ih (n / 10) (by omega) b hb
      · exact (digitByte_spec (n % 10) (Nat.mod_lt n (by decide))).2.1

theorem decimalValue_writeNat (n : Nat) :
    Json.decimalValue ((writeNat n).map digitValue) = n := by
  induction n using Nat.strongRecOn with
  | ind n ih =>
    by_cases hsmall : n < 10
    · rw [writeNat_of_lt hsmall, List.map_singleton, (digitByte_spec n hsmall).2.2.1]
      exact Nat.zero_add n
    · have hlast := (digitByte_spec (n % 10) (Nat.mod_lt n (by decide))).2.2.1
      have hfirst := ih (n / 10) (by omega)
      rw [Json.decimalValue] at hfirst
      rw [writeNat_of_le (by omega), List.map_append, Json.decimalValue, List.foldl_append, hfirst,
        List.map_singleton, hlast, List.foldl_cons, List.foldl_nil]
      omega

/-- No number but zero begins with a zero. -/
theorem head_writeNat (n : Nat) :
    ∃ b r, writeNat n = b :: r ∧ isDigit b = true ∧ (b = ascii '0' → n = 0) := by
  induction n using Nat.strongRecOn with
  | ind n ih =>
    by_cases hsmall : n < 10
    · obtain ⟨-, hdigit, -, hzero⟩ := digitByte_spec n hsmall
      exact ⟨digitByte n, [], writeNat_of_lt hsmall, hdigit, hzero⟩
    · obtain ⟨b, r, hwrite, hdigit, hzero⟩ := ih (n / 10) (by omega)
      refine ⟨b, r ++ [digitByte (n % 10)], ?_, hdigit, fun hb => ?_⟩
      · rw [writeNat_of_le (by omega), hwrite]
        rfl
      · have hquotient := hzero hb
        omega

theorem wholeText_writeNat (n : Nat) : Json.WholeText (writeNat n) := by
  obtain ⟨b, r, hwrite, -, hzero⟩ := head_writeNat n
  by_cases hb : b = ascii '0'
  · rw [hzero hb]
    exact .zero
  · refine .digits ⟨?_, isDigit_writeNat n⟩ ?_
    · rw [hwrite]
      exact List.cons_ne_nil b r
    · rw [hwrite, List.head?_cons, ne_eq, Option.some.injEq]
      exact hb

theorem numeral_writeNat (atEnd : Json.Fault) (n : Nat) {s : Bytes} (h : Ends s) :
    Json.numeral atEnd (writeNat n ++ s) = .ok (⟨(writeNat n).map digitValue, [], none⟩, s) := by
  have hpoint : s.head? ≠ some (ascii '.') := fun hb => (h _ hb).2.1 rfl
  have hfraction : Json.fractionPart atEnd s = .ok ([], s) :=
    Json.FractionText.absent.fractionPart_eq h.endsDigits hpoint atEnd
  simp only [Json.numeral, (wholeText_writeNat n).wholePart_eq h.endsDigits, hfraction, Json.exponentPart_of_ends h]

theorem accumulate_writeNat {n : Nat} (hn : n < 0x10000000000000000) :
    Json.accumulate 0 ((writeNat n).map digitValue) = (n, []) := by
  have hvalue : ((writeNat n).map digitValue).foldl (fun n d => n * 10 + d) 0 = n :=
    decimalValue_writeNat n
  rw [Json.accumulate_of_lt (by rw [hvalue]; exact hn), hvalue]

theorem number_writeNat {n : Nat} (hn : n < 0x10000000000000000) {s : Bytes} (h : Ends s) :
    Json.number false (writeNat n ++ s) = .ok (.natural n, s) := by
  simp only [Json.number, numeral_writeNat _ n h, Json.Numeral.evaluate, accumulate_writeNat hn]
  rfl

theorem number_negative_writeNat {n : Nat} (hpos : 0 < n) (hn : n ≤ 0x8000000000000000) {s : Bytes}
    (h : Ends s) : Json.number true (writeNat n ++ s) = .ok (.negative n, s) := by
  have hword : n < 0x10000000000000000 := by omega
  simp only [Json.number, numeral_writeNat _ n h, Json.Numeral.evaluate, accumulate_writeNat hword]
  simp [hpos, hn]

theorem isDigit_not_space {b : UInt8} (h : isDigit b = true) : Json.isSpace b = false := by
  cases hspace : Json.isSpace b with
  | false => rfl
  | true =>
    simp only [Json.isSpace, Bool.or_eq_true, decide_eq_true_eq] at hspace
    rcases hspace with ((rfl | rfl) | rfl) | rfl <;> cases h

end Scalar

/-! ## Scalars -/

namespace Json

theorem skipSpace_cons {b : UInt8} (h : isSpace b = false) (s : Bytes) : skipSpace (b :: s) = b :: s :=
  List.dropWhile_cons_of_neg (by simp [h])

theorem skipSpace_append {blank : Bytes} (h : ∀ b ∈ blank, isSpace b = true) (s : Bytes) :
    skipSpace (blank ++ s) = skipSpace s :=
  List.dropWhile_append_of_pos h

theorem skipSpace_skipSpace (s : Bytes) : skipSpace (skipSpace s) = skipSpace s := by
  induction s with
  | nil => rfl
  | cons b s ih =>
    cases hb : isSpace b with
    | true =>
      have hskip : skipSpace (b :: s) = skipSpace s := List.dropWhile_cons_of_pos hb
      rw [hskip, ih]
    | false =>
      have hstay := skipSpace_cons hb s
      rw [hstay, hstay]

end Json

/-- A kind of key or value whose text reads back, whatever blanks stand before it. -/
class LawfulScalar (α : Type) [Scalar α] : Prop where
  read_write : ∀ (a : α) (s : Bytes), Json.Ends s → Scalar.read (Scalar.write a ++ s) = .ok (a, s)
  read_skipSpace : ∀ s : Bytes,
    (Scalar.read (Json.skipSpace s) : Except Json.Fault (α × Bytes)) = Scalar.read s

namespace Scalar

open Json (isDigit Ends skipSpace)

theorem string_writeString (t : String) (s : Bytes) :
    Json.string (writeString t ++ s) = .ok (t, s) := by
  obtain ⟨body, hwrite, hread⟩ := stringBody_writeString t s
  rw [hwrite, List.cons_append, Json.string, Json.skipSpace_cons (by decide)]
  exact hread

theorem string_skipSpace (s : Bytes) : Json.string (skipSpace s) = Json.string s := by
  rw [Json.string, Json.skipSpace_skipSpace, Json.string]

instance : LawfulScalar String where
  read_write t s _ := string_writeString t s
  read_skipSpace := string_skipSpace

theorem readNumber_skipSpace {α : Type} (wanted : Json.Wanted) (accept : Json.Number → Option α)
    (s : Bytes) : readNumber wanted accept (skipSpace s) = readNumber wanted accept s := by
  rw [readNumber, Json.skipSpace_skipSpace, readNumber]

theorem readNumber_writeNat {α : Type} {wanted : Json.Wanted} {accept : Json.Number → Option α}
    {n : Nat} {a : α} (hn : n < 0x10000000000000000) (haccept : accept (.natural n) = some a)
    {s : Bytes} (h : Ends s) : readNumber wanted accept (writeNat n ++ s) = .ok (a, s) := by
  have hnumber := number_writeNat hn h
  obtain ⟨b, r, hwrite, hdigit, -⟩ := head_writeNat n
  have hminus : b ≠ ascii '-' := by
    rintro rfl
    cases hdigit
  rw [hwrite, List.cons_append] at hnumber ⊢
  rw [readNumber, Json.skipSpace_cons (isDigit_not_space hdigit)]
  simp only [if_neg hminus, if_pos hdigit, hnumber, haccept]

theorem readNumber_negative {α : Type} {wanted : Json.Wanted} {accept : Json.Number → Option α}
    {n : Nat} {a : α} (hpos : 0 < n) (hn : n ≤ 0x8000000000000000)
    (haccept : accept (.negative n) = some a) {s : Bytes} (h : Ends s) :
    readNumber wanted accept (ascii '-' :: writeNat n ++ s) = .ok (a, s) := by
  have hnumber := number_negative_writeNat hpos hn h
  rw [List.cons_append, readNumber, Json.skipSpace_cons (by decide)]
  simp only [if_true, hnumber, haccept]

theorem readNumber_writeInt {x : Int64} {s : Bytes} (h : Ends s) :
    readNumber .int64 toInt64? (writeInt x.toInt ++ s) = .ok (x, s) := by
  have hlow : -0x8000000000000000 ≤ x.toInt := x.minValue_le_toInt
  have hhigh : x.toInt ≤ 0x7fffffffffffffff := x.toInt_le
  unfold writeInt
  split
  · have hsign : -(x.toInt.natAbs : Int) = x.toInt := by omega
    have haccept : toInt64? (.negative x.toInt.natAbs) = some x := by
      rw [toInt64?, if_pos (by omega), hsign, Int64.ofInt_toInt]
    exact readNumber_negative (by omega) (by omega) haccept h
  · have hsign : (x.toInt.natAbs : Int) = x.toInt := by omega
    have haccept : toInt64? (.natural x.toInt.natAbs) = some x := by
      rw [toInt64?, if_pos (by omega), hsign, Int64.ofInt_toInt]
    exact readNumber_writeNat (by omega) haccept h

instance : LawfulScalar Int64 where
  read_write _ _ := readNumber_writeInt
  read_skipSpace := readNumber_skipSpace .int64 toInt64?

theorem readNumber_writeNat_toNat (x : UInt32) {s : Bytes} (h : Ends s) :
    readNumber .uint32 toUInt32? (writeNat x.toNat ++ s) = .ok (x, s) := by
  have hbound : x.toNat < 0x100000000 := x.toNat_lt
  have haccept : toUInt32? (.natural x.toNat) = some x := by
    rw [toUInt32?, if_pos hbound, UInt32.ofNat_toNat]
  exact readNumber_writeNat (by omega) haccept h

instance : LawfulScalar UInt32 where
  read_write x _ := readNumber_writeNat_toNat x
  read_skipSpace := readNumber_skipSpace .uint32 toUInt32?

/-! ## Strings that may be absent -/

theorem readOption_null (s : Bytes) : readOption (Text.bytesOf "null" ++ s) = .ok (none, s) := by
  have hletters : Text.bytesOf "null" = ascii 'n' :: Text.bytesOf "ull" := by decide
  have hliteral : Json.literalOf "ull" (Text.bytesOf "ull" ++ s) = .ok s := by
    have hull : Text.bytesOf "ull" = [ascii 'u', ascii 'l', ascii 'l'] := by decide
    simp only [Json.literalOf, hull, List.cons_append, List.nil_append, Json.literal, if_true]
  rw [hletters, List.cons_append, readOption, Json.skipSpace_cons (by decide)]
  simp only [if_true, hliteral]

/-- A string begins with a quotation mark, so it is not taken for an absent one. -/
theorem readOption_writeString (t : String) (s : Bytes) :
    readOption (writeString t ++ s) = .ok (some t, s) := by
  have hstring := string_writeString t s
  obtain ⟨body, hwrite, -⟩ := stringBody_writeString t s
  rw [hwrite, List.cons_append] at hstring ⊢
  have hquote : ascii '"' ≠ ascii 'n' := by decide
  rw [readOption, Json.skipSpace_cons (by decide)]
  simp only [if_neg hquote, hstring]

instance : LawfulScalar (Option String) where
  read_write
    | none, s, _ => readOption_null s
    | some t, s, _ => readOption_writeString t s
  read_skipSpace s := by
    change readOption (skipSpace s) = readOption s
    rw [readOption, Json.skipSpace_skipSpace, readOption]

end Scalar

end ExpiringCache
