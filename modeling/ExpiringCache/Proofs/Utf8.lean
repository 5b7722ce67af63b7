import ExpiringCache.Text.Utf8

/-!
Reading back what was written as UTF-8. Main statement: the bytes of a text read as that text.
-/
namespace ExpiringCache.Text
set_option autoImplicit false

/-! ## Bytes as numbers -/

theorem toNat_ofNat {m : Nat} (h : m < 0x100) : (UInt8.ofNat m).toNat = m :=
  UInt8.toNat_ofNat_of_lt' h

theorem ofNat_eq_iff {m n : Nat} (hm : m < 0x100) (hn : n < 0x100) :
    UInt8.ofNat m = UInt8.ofNat n ↔ m = n := by
  rw [← UInt8.toNat_inj, toNat_ofNat hm, toNat_ofNat hn]

theorem not_ofNat_lt (n : Nat) {m : Nat} (h : n ≤ m) (hm : m < 0x100) :
    ¬ UInt8.ofNat m < UInt8.ofNat n := by
  rw [UInt8.ofNat_lt_iff_lt hm (Nat.lt_of_le_of_lt h hm)]
  omega

theorem ofNat_within (low high : Nat) {m : Nat} (hlow : low ≤ m) (hhigh : m ≤ high)
    (h : high < 0x100) :
    (decide (UInt8.ofNat low ≤ UInt8.ofNat m) && decide (UInt8.ofNat m ≤ UInt8.ofNat high)) =
      true := by
  have hm : m < 0x100 := Nat.lt_of_le_of_lt hhigh h
  have hbelow : UInt8.ofNat low ≤ UInt8.ofNat m :=
    (UInt8.ofNat_le_iff_le (Nat.lt_of_le_of_lt hlow hm) hm).mpr hlow
  have habove : UInt8.ofNat m ≤ UInt8.ofNat high := (UInt8.ofNat_le_iff_le hm h).mpr hhigh
  simp only [hbelow, habove, decide_true, Bool.and_self]

theorem not_ofNat_within (low high : Nat) {m : Nat} (hm : m < 0x100) (h : high < m) :
    (decide (UInt8.ofNat low ≤ UInt8.ofNat m) && decide (UInt8.ofNat m ≤ UInt8.ofNat high)) =
      false := by
  have habove : ¬ UInt8.ofNat m ≤ UInt8.ofNat high := by
    rw [UInt8.ofNat_le_iff_le hm (Nat.lt_trans h hm)]
    omega
  simp only [habove, decide_false, Bool.and_false]

theorem isContinuation_ofNat {m : Nat} (h : m < 0x40) :
    isContinuation (UInt8.ofNat (0x80 + m)) = true := by
  have hhigh : 0x80 + m ≤ 0xbf := by omega
  exact ofNat_within 0x80 0xbf (Nat.le_add_right 0x80 m) hhigh (by decide)

theorem payload_ofNat {m : Nat} (h : m < 0x40) : payload (UInt8.ofNat (0x80 + m)) = m := by
  have hbyte : 0x80 + m < 0x100 := by omega
  have hnat := toNat_ofNat hbyte
  unfold payload
  rw [hnat]
  omega

/-- A second byte is in range unless the form is longer than needed, a surrogate, or past the last
character. -/
theorem isSecond_ofNat {first m : Nat} (hfirst : first < 0x100) (h : m < 0x40)
    (hlong : first = 0xe0 → 0x20 ≤ m) (hsurrogate : first = 0xed → m < 0x20)
    (hlonger : first = 0xf0 → 0x10 ≤ m) (hlast : first = 0xf4 → m < 0x10) :
    isSecond (UInt8.ofNat first) (UInt8.ofNat (0x80 + m)) = true := by
  unfold isSecond secondRange
  split
  · rename_i heq
    have hlow := hlong ((ofNat_eq_iff hfirst (by decide)).mp heq)
    exact ofNat_within 0xa0 0xbf (by omega) (by omega) (by decide)
  · split
    · rename_i heq
      have hhigh := hsurrogate ((ofNat_eq_iff hfirst (by decide)).mp heq)
      exact ofNat_within 0x80 0x9f (by omega) (by omega) (by decide)
    · split
      · rename_i heq
        have hlow := hlonger ((ofNat_eq_iff hfirst (by decide)).mp heq)
        exact ofNat_within 0x90 0xbf (by omega) (by omega) (by decide)
      · split
        · rename_i heq
          have hhigh := hlast ((ofNat_eq_iff hfirst (by decide)).mp heq)
          exact ofNat_within 0x80 0x8f (by omega) (by omega) (by decide)
        · exact ofNat_within 0x80 0xbf (by omega) (by omega) (by decide)

/-! ## Characters -/

theorem valid_toNat (c : Char) : c.toNat < 0xd800 ∨ 0xdfff < c.toNat ∧ c.toNat < 0x110000 := c.valid

/-- Puts a character before those that the rest of a text gives. -/
def pushChar (c : Char) : Except Utf8Fault (List Char) → Except Utf8Fault (List Char)
  | .ok cs => .ok (c :: cs)
  | .error f => .error f

theorem decodeFrom_one (index : Nat) {n : Nat} (h : n < 0x80) (s : Bytes) :
    decodeFrom index (UInt8.ofNat n :: s) = pushChar (Char.ofNat n) (decodeFrom (index + 1) s) := by
  have hascii : UInt8.ofNat n < (0x80 : UInt8) :=
    (UInt8.ofNat_lt_iff_lt (Nat.lt_trans h (by decide)) (by decide)).mpr h
  have hnat : (UInt8.ofNat n).toNat = n := toNat_ofNat (by omega)
  rw [decodeFrom.eq_def]
  simp only [if_pos hascii, hnat]
  rfl

/-- Two bytes that carry `a` and `b`. -/
theorem decodeFrom_two (index : Nat) {a b : Nat} (hlow : 0x2 ≤ a) (ha : a < 0x20) (hb : b < 0x40)
    (s : Bytes) :
    decodeFrom index (UInt8.ofNat (0xc0 + a) :: UInt8.ofNat (0x80 + b) :: s) =
      pushChar (Char.ofNat (a * 0x40 + b)) (decodeFrom (index + 2) s) := by
  have hbyte : 0xc0 + a < 0x100 := by omega
  have hhigh : ¬ UInt8.ofNat (0xc0 + a) < (0x80 : UInt8) := not_ofNat_lt 0x80 (by omega) hbyte
  have hfirst : (decide ((0xc2 : UInt8) ≤ UInt8.ofNat (0xc0 + a)) &&
      decide (UInt8.ofNat (0xc0 + a) ≤ (0xdf : UInt8))) = true :=
    ofNat_within 0xc2 0xdf (by omega) (by omega) (by decide)
  have hnat : (UInt8.ofNat (0xc0 + a)).toNat - 0xc0 = a := by
    have hbyte := toNat_ofNat hbyte
    omega
  rw [decodeFrom.eq_def]
  simp only [if_neg hhigh, if_pos hfirst, if_pos (isContinuation_ofNat hb), hnat, payload_ofNat hb]
  rfl

/-- Three bytes that carry `a`, `b` and `c`. -/
theorem decodeFrom_three (index : Nat) {a b c : Nat} (ha : a < 0x10) (hb : b < 0x40) (hc : c < 0x40)
    (hlong : a = 0 → 0x20 ≤ b) (hsurrogate : a = 0xd → b < 0x20) (s : Bytes) :
    decodeFrom index (UInt8.ofNat (0xe0 + a) :: UInt8.ofNat (0x80 + b) :: UInt8.ofNat (0x80 + c) :: s) =
      pushChar (Char.ofNat (a * 0x1000 + b * 0x40 + c)) (decodeFrom (index + 3) s) := by
  have hbyte : 0xe0 + a < 0x100 := by omega
  have hhigh : ¬ UInt8.ofNat (0xe0 + a) < (0x80 : UInt8) := not_ofNat_lt 0x80 (by omega) hbyte
  have htwo : (decide ((0xc2 : UInt8) ≤ UInt8.ofNat (0xe0 + a)) &&
      decide (UInt8.ofNat (0xe0 + a) ≤ (0xdf : UInt8))) = false :=
    not_ofNat_within 0xc2 0xdf hbyte (by omega)
  have hfirst : (decide ((0xe0 : UInt8) ≤ UInt8.ofNat (0xe0 + a)) &&
      decide (UInt8.ofNat (0xe0 + a) ≤ (0xef : UInt8))) = true :=
    ofNat_within 0xe0 0xef (by omega) (by omega) (by decide)
  have hsecond : isSecond (UInt8.ofNat (0xe0 + a)) (UInt8.ofNat (0x80 + b)) = true :=
    isSecond_ofNat hbyte hb (by omega) (by omega) (by omega) (by omega)
  have hnat : (UInt8.ofNat (0xe0 + a)).toNat - 0xe0 = a := by
    have hbyte := toNat_ofNat hbyte
    omega
  rw [decodeFrom.eq_def]
  simp only [if_neg hhigh, htwo, Bool.false_eq_true, if_false, if_pos hfirst, if_pos hsecond,
    if_pos (isContinuation_ofNat hc), hnat, payload_ofNat hb, payload_ofNat hc]
  rfl

/-- Four bytes that carry `a`, `b`, `c` and `d`. -/
theorem decodeFrom_four (index : Nat) {a b c d : Nat} (ha : a < 0x5) (hb : b < 0x40) (hc : c < 0x40)
    (hd : d < 0x40) (hlong : a = 0 → 0x10 ≤ b) (hlast : a = 0x4 → b < 0x10) (s : Bytes) :
    decodeFrom index (UInt8.ofNat (0xf0 + a) :: UInt8.ofNat (0x80 + b) :: UInt8.ofNat (0x80 + c) ::
        UInt8.ofNat (0x80 + d) :: s) =
      pushChar (Char.ofNat (a * 0x40000 + b * 0x1000 + c * 0x40 + d)) (decodeFrom (index + 4) s) := by
  have hbyte : 0xf0 + a < 0x100 := by omega
  have hhigh : ¬ UInt8.ofNat (0xf0 + a) < (0x80 : UInt8) := not_ofNat_lt 0x80 (by omega) hbyte
  have htwo : (decide ((0xc2 : UInt8) ≤ UInt8.ofNat (0xf0 + a)) &&
      decide (UInt8.ofNat (0xf0 + a) ≤ (0xdf : UInt8))) = false :=
    not_ofNat_within 0xc2 0xdf hbyte (by omega)
  have hthree : (decide ((0xe0 : UInt8) ≤ UInt8.ofNat (0xf0 + a)) &&
      decide (UInt8.ofNat (0xf0 + a) ≤ (0xef : UInt8))) = false :=
    not_ofNat_within 0xe0 0xef hbyte (by omega)
  have hfirst : (decide ((0xf0 : UInt8) ≤ UInt8.ofNat (0xf0 + a)) &&
      decide (UInt8.ofNat (0xf0 + a) ≤ (0xf4 : UInt8))) = true :=
    ofNat_within 0xf0 0xf4 (by omega) (by omega) (by decide)
  have hsecond : isSecond (UInt8.ofNat (0xf0 + a)) (UInt8.ofNat (0x80 + b)) = true :=
    isSecond_ofNat hbyte hb (by omega) (by omega) (by omega) (by omega)
  have hnat : (UInt8.ofNat (0xf0 + a)).toNat - 0xf0 = a := by
    have hbyte := toNat_ofNat hbyte
    omega
  rw [decodeFrom.eq_def]
  simp only [if_neg hhigh, htwo, hthree, Bool.false_eq_true, if_false, if_pos hfirst, if_pos hsecond,
    if_pos (isContinuation_ofNat hc), if_pos (isContinuation_ofNat hd), hnat, payload_ofNat hb,
    payload_ofNat hc, payload_ofNat hd]
  rfl

theorem decodeFrom_encodeChar (index : Nat) (c : Char) (s : Bytes) :
    decodeFrom index (encodeChar c ++ s) =
      pushChar c (decodeFrom (index + (encodeChar c).length) s) := by
  have hvalid := valid_toNat c
  have hchar : Char.ofNat c.toNat = c := Char.ofNat_toNat c
  unfold encodeChar
  generalize c.toNat = n at hvalid hchar
  simp only
  split
  · rename_i hn
    rw [← hchar]
    exact decodeFrom_one index hn s
  · split
    · have hsum : n / 0x40 * 0x40 + n % 0x40 = n := by omega
      have htwo := decodeFrom_two index (a := n / 0x40) (b := n % 0x40) (by omega) (by omega)
        (by omega) s
      rw [hsum, hchar] at htwo
      exact htwo
    · split
      · have hsum : n / 0x1000 * 0x1000 + n / 0x40 % 0x40 * 0x40 + n % 0x40 = n := by omega
        have hthree := decodeFrom_three index (a := n / 0x1000) (b := n / 0x40 % 0x40)
          (c := n % 0x40) (by omega) (by omega) (by omega) (by omega) (by omega) s
        rw [hsum, hchar] at hthree
        exact hthree
      · have hsum : n / 0x40000 * 0x40000 + n / 0x1000 % 0x40 * 0x1000 + n / 0x40 % 0x40 * 0x40 +
            n % 0x40 = n := by omega
        have hfour := decodeFrom_four index (a := n / 0x40000) (b := n / 0x1000 % 0x40)
          (c := n / 0x40 % 0x40) (d := n % 0x40) (by omega) (by omega) (by omega) (by omega)
          (by omega) (by omega) s
        rw [hsum, hchar] at hfour
        exact hfour

theorem decodeFrom_encode (index : Nat) (cs : List Char) : decodeFrom index (encode cs) = .ok cs := by
  induction cs generalizing index with
  | nil => rfl
  | cons c cs ih =>
    have hcons : encode (c :: cs) = encodeChar c ++ encode cs := rfl
    rw [hcons, decodeFrom_encodeChar, ih]
    rfl

theorem decode_encode (cs : List Char) : decode (encode cs) = .ok cs := decodeFrom_encode 0 cs

end ExpiringCache.Text
