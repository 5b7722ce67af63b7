import ExpiringCache.Proofs.SelfDelimiting
import ExpiringCache.Proofs.SnapshotText
import ExpiringCache.Snapshot.File
import Mathlib.Data.List.TakeWhile

/-!
Snapshots that are not whole. The reader finds the end of a list by itself, so that what it has read it reads
again when more bytes follow. Main statement: of a snapshot of entries that was cut anywhere, or that other
bytes than blanks follow, nothing is read.
-/
namespace ExpiringCache.Snapshot
set_option autoImplicit false

open Json (Fault Member bind_eq_ok map_eq_ok skipSpace isSpace)

/-! ## What is made of a text -/

theorem isEmpty_skipSpace (s : Bytes) : (skipSpace s).isEmpty = s.all isSpace := by
  rw [Bool.eq_iff_iff, List.isEmpty_iff, skipSpace, List.dropWhile_eq_nil_iff, List.all_eq_true]

section
variable {K V : Type} [Scalar K] [Scalar V]

theorem interpret_eq_error {s : Bytes} (hs : s ≠ []) {f : Fault}
    (h : (readEntries s : Except Fault (List (Entry K V) × Bytes)) = .error f) :
    (SnapshotFile.interpret s : Except SnapshotError (Option (List (Entry K V)))) = .error (.codec f) := by
  rw [SnapshotFile.interpret, decode, if_neg (by simpa using hs), h]
  rfl

theorem interpret_of_read {s : Bytes} (hs : s ≠ []) {es : List (Entry K V)} {r : Bytes}
    (h : readEntries s = .ok (es, r)) :
    SnapshotFile.interpret s =
      if r.all isSpace then .ok (some es) else .error (.codec .trailingCharacters) := by
  rw [SnapshotFile.interpret, decode, if_neg (by simpa using hs), h]
  simp only [bind, Except.bind, isEmpty_skipSpace]
  split <;> rfl

end

/-! ## Separators -/

theorem tail_skipSpace_append {s : Bytes} (h : skipSpace s ≠ []) (more : Bytes) :
    (skipSpace (s ++ more)).tail = (skipSpace s).tail ++ more := by
  obtain ⟨b, r, hskip⟩ := List.exists_cons_of_ne_nil h
  rw [Json.skipSpace_append_of_cons hskip, hskip]
  rfl

theorem nextItem_append {first : Bool} {s : Bytes} {next : Option Bytes}
    (h : nextItem first s = .ok next) (more : Bytes) :
    nextItem first (s ++ more) = .ok (next.map (· ++ more)) := by
  rw [nextItem] at h
  split at h
  · cases h
  · rename_i b r hskip
    rw [nextItem, Json.skipSpace_append_of_cons hskip]
    simp only
    split_ifs at h ⊢
    · cases h
      rfl
    · cases h
      rfl
    · split at h
      · cases h
      · rename_i c r' hskip'
        rw [Json.skipSpace_append_of_cons hskip']
        simp only
        split_ifs at h ⊢
        cases h
        rfl

theorem skipSpace_of_nextItem {first : Bool} {s : Bytes} {next : Option Bytes}
    (h : nextItem first s = .ok next) : skipSpace s ≠ [] := by
  intro hskip
  rw [nextItem, hskip] at h
  cases h

theorem endList_append {s r : Bytes} (h : endList s = .ok r) (more : Bytes) :
    endList (s ++ more) = .ok (r ++ more) := by
  rw [endList] at h
  split at h
  · cases h
  · rename_i b r' hskip
    rw [endList, Json.skipSpace_append_of_cons hskip]
    simp only
    split_ifs at h with hclose
    cases h
    rw [if_pos hclose]

theorem nextName_append {first : Bool} {s : Bytes} {next : Option Bytes}
    (h : nextName first s = .ok next) (more : Bytes) :
    nextName first (s ++ more) = .ok (next.map (· ++ more)) := by
  rw [nextName] at h
  split at h
  · cases h
  · rename_i b r hskip
    rw [nextName, Json.skipSpace_append_of_cons hskip]
    simp only
    split_ifs at h ⊢
    · cases h
      rfl
    · cases h
      rfl
    · split at h
      · cases h
      · rename_i c r' hskip'
        rw [Json.skipSpace_append_of_cons hskip']
        simp only
        split_ifs at h ⊢
        cases h
        rfl

theorem skipSpace_of_nextName {first : Bool} {s : Bytes} {next : Option Bytes}
    (h : nextName first s = .ok next) : skipSpace s ≠ [] := by
  intro hskip
  rw [nextName, hskip] at h
  cases h

/-! ## Entries -/

section
variable {K V : Type} [Scalar K] [Scalar V] [SelfDelimiting K] [SelfDelimiting V]

theorem Draft.read_append {d d' : Draft K V} {member : Member} {s r : Bytes}
    (h : d.read member s = .ok (d', r)) (hr : r ≠ []) (more : Bytes) :
    d.read member (s ++ more) = .ok (d', r ++ more) := by
  cases member <;>
  · obtain ⟨⟨a, rest⟩, hread, hdraft⟩ := map_eq_ok h
    cases hdraft
    rw [Draft.read, SelfDelimiting.read_append hread hr]
    rfl

theorem readNamed_append {d d' : Draft K V} {name : String} {s r : Bytes}
    (h : readNamed d name s = .ok (d', r)) (hr : r ≠ []) (more : Bytes) :
    readNamed d name (s ++ more) = .ok (d', r ++ more) := by
  rw [readNamed] at h ⊢
  split at h
  · split_ifs at h ⊢
    obtain ⟨value, hcolon, hread⟩ := bind_eq_ok h
    rw [Json.colon_append hcolon]
    exact Draft.read_append hread hr more
  · obtain ⟨value, hcolon, hafter⟩ := bind_eq_ok h
    obtain ⟨rest, hskip, hrest⟩ := bind_eq_ok hafter
    cases hrest
    simp only [Json.colon_append hcolon, Json.skipValue_append hskip hr, bind, Except.bind]
    rfl

/-- With more bytes goes more fuel. -/
theorem readMembers_append {fuel fuel' : Nat} {first : Bool} {d d' : Draft K V} {s r : Bytes}
    (h : readMembers fuel first d s = .ok (d', r)) (hfuel : fuel ≤ fuel') (more : Bytes) :
    readMembers fuel' first d (s ++ more) = .ok (d', r ++ more) := by
  induction fuel generalizing fuel' first d s with
  | zero => cases h
  | succ fuel ih =>
    obtain ⟨fuel', rfl⟩ : ∃ n, fuel' = n + 1 := ⟨fuel' - 1, by omega⟩
    obtain ⟨next, hnext, hread⟩ := bind_eq_ok h
    cases next with
    | none =>
      cases hread
      have htail := tail_skipSpace_append (skipSpace_of_nextName hnext) more
      simp only [readMembers, nextName_append hnext, Option.map_none, htail, bind, Except.bind]
      rfl
    | some body =>
      obtain ⟨⟨name, s₁⟩, hname, hmember⟩ := bind_eq_ok hread
      obtain ⟨⟨d₂, s₂⟩, hnamed, hrest⟩ := bind_eq_ok hmember
      -- A value at the end of the text is no matter: a bracket has to follow it.
      have hopen : s₂ ≠ [] := by
        rintro rfl
        cases fuel <;> cases hrest
      simp only [readMembers, nextName_append hnext, Option.map_some, Json.stringBody_append hname,
        readNamed_append hnamed hopen, bind, Except.bind]
      exact ih hrest (by omega)

theorem readObject_append {s : Bytes} {e : Entry K V} {r : Bytes} (h : readObject s = .ok (e, r))
    (more : Bytes) : readObject (s ++ more) = .ok (e, r ++ more) := by
  obtain ⟨⟨d, s₁⟩, hmembers, hfinish⟩ := bind_eq_ok h
  obtain ⟨e', hentry, hrest⟩ := bind_eq_ok hfinish
  cases hrest
  have hmore : readMembers ((s ++ more).length + 1) true {} (s ++ more) = .ok (d, r ++ more) :=
    readMembers_append hmembers (by rw [List.length_append]; omega) more
  simp only [readObject, hmore, hentry, bind, Except.bind]
  rfl

omit [Scalar K] [Scalar V] [SelfDelimiting K] [SelfDelimiting V] in
theorem readNth_append {α : Type} [Scalar α] [SelfDelimiting α] {index : Nat} {s : Bytes} {a : α}
    {r : Bytes} (h : readNth index s = .ok (a, r)) (hr : r ≠ []) (more : Bytes) :
    readNth index (s ++ more) = .ok (a, r ++ more) := by
  obtain ⟨next, hnext, hread⟩ := bind_eq_ok h
  rw [readNth, nextItem_append hnext]
  cases next with
  | none => cases hread
  | some value => exact SelfDelimiting.read_append hread hr more

theorem readTuple_append {s : Bytes} {e : Entry K V} {r : Bytes} (h : readTuple s = .ok (e, r))
    (more : Bytes) : readTuple (s ++ more) = .ok (e, r ++ more) := by
  obtain ⟨⟨key, s₁⟩, hkey, h₁⟩ := bind_eq_ok h
  obtain ⟨⟨value, s₂⟩, hvalue, h₂⟩ := bind_eq_ok h₁
  obtain ⟨⟨created, s₃⟩, hcreated, h₃⟩ := bind_eq_ok h₂
  obtain ⟨⟨accessed, s₄⟩, haccessed, h₄⟩ := bind_eq_ok h₃
  obtain ⟨s₅, hend, hrest⟩ := bind_eq_ok h₄
  cases hrest
  have hs₁ : s₁ ≠ [] := by
    rintro rfl
    cases hvalue
  have hs₂ : s₂ ≠ [] := by
    rintro rfl
    cases hcreated
  have hs₃ : s₃ ≠ [] := by
    rintro rfl
    cases haccessed
  have hs₄ : s₄ ≠ [] := by
    rintro rfl
    cases hend
  simp only [readTuple, readNth_append hkey hs₁, readNth_append hvalue hs₂,
    readNth_append hcreated hs₃, readNth_append haccessed hs₄, endList_append hend, bind, Except.bind]
  rfl

theorem readEntry_append {s : Bytes} {e : Entry K V} {r : Bytes} (h : readEntry s = .ok (e, r))
    (more : Bytes) : readEntry (s ++ more) = .ok (e, r ++ more) := by
  rw [readEntry] at h
  split at h
  · cases h
  · rename_i b r' hskip
    rw [readEntry, Json.skipSpace_append_of_cons hskip]
    simp only
    split_ifs at h ⊢
    · exact readObject_append h more
    · exact readTuple_append h more

/-! ## Lists of entries -/

theorem readItems_append {fuel fuel' : Nat} {first : Bool} {s : Bytes} {es : List (Entry K V)} {r : Bytes}
    (h : readItems fuel first s = .ok (es, r)) (hfuel : fuel ≤ fuel') (more : Bytes) :
    readItems fuel' first (s ++ more) = .ok (es, r ++ more) := by
  induction fuel generalizing fuel' first s es with
  | zero => cases h
  | succ fuel ih =>
    obtain ⟨fuel', rfl⟩ : ∃ n, fuel' = n + 1 := ⟨fuel' - 1, by omega⟩
    obtain ⟨next, hnext, hread⟩ := bind_eq_ok h
    cases next with
    | none =>
      cases hread
      have htail := tail_skipSpace_append (skipSpace_of_nextItem hnext) more
      simp only [readItems, nextItem_append hnext, Option.map_none, htail, bind, Except.bind]
      rfl
    | some item =>
      obtain ⟨⟨e, s₁⟩, hentry, hlater⟩ := bind_eq_ok hread
      obtain ⟨⟨es', s₂⟩, hitems, hrest⟩ := bind_eq_ok hlater
      cases hrest
      simp only [readItems, nextItem_append hnext, Option.map_some, readEntry_append hentry,
        ih hitems (Nat.le_of_succ_le_succ hfuel), bind, Except.bind]
      rfl

/-- What the reader has made of a text it makes of any longer one. -/
theorem readEntries_append {s : Bytes} {es : List (Entry K V)} {r : Bytes}
    (h : readEntries s = .ok (es, r)) (more : Bytes) : readEntries (s ++ more) = .ok (es, r ++ more) := by
  rw [readEntries] at h
  split at h
  · cases h
  · rename_i b r' hskip
    rw [readEntries, Json.skipSpace_append_of_cons hskip]
    simp only
    split_ifs at h ⊢
    refine readItems_append h ?_ more
    rw [List.length_append]
    omega

/-! ## Snapshots that are not whole -/

/-- A text that reads as entries to its end has no beginning but the whole that reads as entries. -/
theorem readEntries_of_beginning {torn s : Bytes} {es es' : List (Entry K V)} {r : Bytes}
    (hbegins : torn <+: s) (hread : readEntries s = .ok (es, [])) (h : readEntries torn = .ok (es', r)) :
    torn = s := by
  obtain ⟨more, rfl⟩ := hbegins
  rw [readEntries_append h] at hread
  have hrest : r ++ more = [] := congrArg Prod.snd (Except.ok.inj hread)
  rw [(List.append_eq_nil_iff.mp hrest).2, List.append_nil]

variable (K V) in
/-- A snapshot of entries, in either layout, is refused when it was cut and something is left of it, and when
other bytes than blanks follow it. Blanks are no matter. -/
structure RefusesTorn : Prop where
  cut : ∀ (layout : Layout) (es : List (Entry K V)) (torn : Bytes), torn <+: encode layout (some es) →
    torn ≠ [] → torn ≠ encode layout (some es) → ∃ fault,
      (SnapshotFile.interpret torn : Except SnapshotError (Option (List (Entry K V)))) =
        .error (.codec fault)
  followed : ∀ (layout : Layout) (es : List (Entry K V)) (more : Bytes), (∃ b ∈ more, isSpace b = false) →
    (SnapshotFile.interpret (encode layout (some es) ++ more) :
      Except SnapshotError (Option (List (Entry K V)))) = .error (.codec .trailingCharacters)
  padded : ∀ (layout : Layout) (es : List (Entry K V)) (more : Bytes), (∀ b ∈ more, isSpace b = true) →
    SnapshotFile.interpret (encode layout (some es) ++ more) = .ok (some es)

variable [LawfulScalar K] [LawfulScalar V]

theorem interpret_followed (layout : Layout) (es : List (Entry K V)) (more : Bytes) :
    SnapshotFile.interpret (encode layout (some es) ++ more) =
      if more.all isSpace then .ok (some es) else .error (.codec .trailingCharacters) := by
  have hread : readEntries (encode layout (some es) ++ more) = .ok (es, more) :=
    readEntries_append (readEntries_writeEntries layout es) more
  have hfull : encode layout (some es) ++ more ≠ [] := fun h =>
    encode_some_ne_nil layout es (List.append_eq_nil_iff.mp h).1
  exact interpret_of_read hfull hread

variable (K V) in
theorem snapshot_refusesTorn : RefusesTorn K V where
  cut layout es torn hbegins hfull hcut := by
    cases hread : (readEntries torn : Except Fault (List (Entry K V) × Bytes)) with
    | error fault => exact ⟨fault, interpret_eq_error hfull hread⟩
    | ok read =>
      exact absurd (readEntries_of_beginning hbegins (readEntries_writeEntries layout es) hread) hcut
  followed layout es more hmore := by
    obtain ⟨b, hb, hspace⟩ := hmore
    have hall : more.all isSpace = false := List.all_eq_false.mpr ⟨b, hb, by simp [hspace]⟩
    rw [interpret_followed, hall, if_neg Bool.false_ne_true]
  padded layout es more hmore := by
    rw [interpret_followed, List.all_eq_true.mpr hmore, if_pos rfl]

end

/-- Snapshots of strings, of 32-bit numbers, of strings that may be absent, and of 64-bit numbers under
64-bit keys. -/
theorem snapshot_refusesTorn_of_scalars :
    RefusesTorn String String ∧ RefusesTorn String UInt32 ∧ RefusesTorn String (Option String) ∧
      RefusesTorn Int64 Int64 :=
  ⟨snapshot_refusesTorn String String, snapshot_refusesTorn String UInt32,
    snapshot_refusesTorn String (Option String), snapshot_refusesTorn Int64 Int64⟩

end ExpiringCache.Snapshot
