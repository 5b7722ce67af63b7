import ExpiringCache.Proofs.ValueSyntax
import ExpiringCache.Snapshot.Reader
import ExpiringCache.Snapshot.Writer

/-!
A snapshot as it is written, read back. Main statement: the bytes of entries, in either layout, decode to
just these entries, and the bytes of no entries at all to that, so that different snapshots are written
differently.
-/
namespace ExpiringCache.Snapshot
set_option autoImplicit false

open Text (ascii)
open Json (Blank Bracket Bracketed Ends Fault Listed Member Opens Separator blank_nil ends_cons isSpace skipSpace)

/-! ## Separators -/

theorem nextItem_done {blank : Bytes} (h : Blank blank) (first : Bool) (r : Bytes) :
    nextItem first (blank ++ ascii ']' :: r) = .ok none := by
  rw [nextItem, h.skipSpace_eq (by decide)]
  rfl

theorem nextItem_item {first : Bool} {separator : Bytes} (h : Separator first separator) {b : UInt8}
    (hspace : isSpace b = false) (hclose : b ≠ ascii ']') (r : Bytes) :
    nextItem first (separator ++ b :: r) = .ok (some (b :: r)) := by
  cases h with
  | first hblank =>
    rw [nextItem, hblank.skipSpace_eq hspace]
    simp only [if_neg hclose, if_true]
  | next hbefore hafter =>
    rw [nextItem, List.append_assoc, List.cons_append, hbefore.skipSpace_eq (by decide)]
    simp only [hafter.skipSpace_eq hspace, if_neg hclose]
    rfl

theorem nextName_done {blank : Bytes} (h : Blank blank) (first : Bool) (r : Bytes) :
    nextName first (blank ++ ascii '}' :: r) = .ok none := by
  rw [nextName, h.skipSpace_eq (by decide)]
  rfl

theorem nextName_item {first : Bool} {separator : Bytes} (h : Separator first separator) (r : Bytes) :
    nextName first (separator ++ ascii '"' :: r) = .ok (some r) := by
  cases h with
  | first hblank =>
    rw [nextName, hblank.skipSpace_eq (by decide)]
    rfl
  | next hbefore hafter =>
    rw [nextName, List.append_assoc, List.cons_append, hbefore.skipSpace_eq (by decide)]
    simp only [hafter.skipSpace_eq (show isSpace (ascii '"') = false by decide)]
    rfl

/-! ## Layout -/

theorem blank_newline (layout : Layout) (level : Nat) : Blank (layout.newline level) := by
  intro b hb
  cases layout with
  | compact => cases hb
  | indented =>
    rcases List.mem_cons.mp hb with rfl | hb
    · rfl
    · rw [List.eq_of_mem_replicate hb]
      rfl

theorem separator_newline (layout : Layout) (level : Nat) :
    Separator false (ascii ',' :: layout.newline level) :=
  .next blank_nil (blank_newline layout level)

/-- The colon after a name leaves nothing but blanks before the value. -/
theorem colon_layout (layout : Layout) : ∃ blank, Blank blank ∧ layout.colon = ascii ':' :: blank := by
  cases layout with
  | compact => exact ⟨[], blank_nil, rfl⟩
  | indented =>
    refine ⟨[ascii ' '], fun b hb => ?_, rfl⟩
    rw [List.mem_singleton.mp hb]
    rfl

section
variable {α : Type} {text : α → Bytes → Prop} {write : α → Bytes}

theorem listed_written (layout : Layout) (level : Nat) {as : List α} (h : ∀ a ∈ as, text a (write a)) :
    Listed text false as ((as.map write).flatMap (fun i => ascii ',' :: layout.newline (level + 1) ++ i) ++
      layout.newline level) := by
  induction as with
  | nil => exact .done (blank_newline layout level)
  | cons a as ih =>
    obtain ⟨ha, has⟩ := List.forall_mem_cons.mp h
    rw [List.map_cons, List.flatMap_cons, List.append_assoc, List.append_assoc]
    exact .item (separator_newline layout (level + 1)) ha (ih has)

theorem bracketed_written (layout : Layout) (level : Nat) {bracket : Bracket} {opening closing : Char}
    (hopening : ascii opening = bracket.opening) (hclosing : ascii closing = bracket.closing) {as : List α}
    (h : ∀ a ∈ as, text a (write a)) :
    Bracketed bracket text as (layout.bracketed level opening closing (as.map write)) := by
  cases as with
  | nil =>
    refine ⟨[], .done blank_nil, ?_⟩
    rw [← hopening, ← hclosing]
    rfl
  | cons a as =>
    obtain ⟨ha, has⟩ := List.forall_mem_cons.mp h
    refine ⟨_, .item (.first (blank_newline layout (level + 1))) ha (listed_written layout level has), ?_⟩
    simp only [List.map_cons, Layout.bracketed, hopening, hclosing, List.cons_append, List.append_assoc]

end

/-! ## Members -/

theorem memberOf_name (member : Member) : memberOf member.name = some member := by
  cases member <;> decide

section
variable {K V : Type} [Scalar K] [Scalar V]

/-- A member is read into the draft if its value is. -/
theorem readNamed_member {d d' : Draft K V} {member : Member} {value s : Bytes} (layout : Layout)
    (hfree : d.has member = false)
    (hread : ∀ blank : Bytes, Blank blank → d.read member (blank ++ (value ++ s)) = .ok (d', s)) :
    readNamed d member.name (layout.colon ++ (value ++ s)) = .ok (d', s) := by
  obtain ⟨blank, hblank, hcolon⟩ := colon_layout layout
  have hvalue : Json.colon (layout.colon ++ (value ++ s)) = .ok (blank ++ (value ++ s)) := by
    rw [hcolon]
    exact blank_nil.colon_eq _
  simp only [readNamed, memberOf_name, hfree, Bool.false_eq_true, if_false, hvalue, bind, Except.bind,
    hread blank hblank]

/-- A member at a level, before what follows it. -/
def memberText (layout : Layout) (level : Nat) (member : Member) (value s : Bytes) : Bytes :=
  layout.newline level ++ (writeMember layout member value ++ s)

/-- One round of the reader reads one member. -/
theorem readMembers_member {d d' : Draft K V} {member : Member} {value s : Bytes} (layout : Layout) {first : Bool}
    {separator : Bytes} (hseparator : Separator first separator) (fuel : Nat) (hfree : d.has member = false)
    (hread : ∀ blank : Bytes, Blank blank → d.read member (blank ++ (value ++ s)) = .ok (d', s)) :
    readMembers (fuel + 1) first d (separator ++ (writeMember layout member value ++ s)) =
      readMembers fuel false d' s := by
  obtain ⟨body, hname, hbody⟩ :=
    Scalar.stringBody_writeString member.name (layout.colon ++ (value ++ s))
  have htext : writeMember layout member value ++ s =
      ascii '"' :: (body ++ (layout.colon ++ (value ++ s))) := by
    simp only [writeMember, hname, List.cons_append, List.append_assoc]
  rw [htext]
  simp only [readMembers, nextName_item hseparator, bind, Except.bind, hbody, readNamed_member layout hfree hread]

theorem readMembers_done {blank : Bytes} (h : Blank blank) (fuel : Nat) (first : Bool) (d : Draft K V) (r : Bytes) :
    readMembers (fuel + 1) first d (blank ++ ascii '}' :: r) = .ok (d, r) := by
  simp only [readMembers, nextName_done h, h.skipSpace_eq (show isSpace (ascii '}') = false by decide), bind,
    Except.bind, pure, Except.pure, List.tail_cons]

/-! ## Lists of entries -/

theorem readItems_done {blank : Bytes} (h : Blank blank) (fuel : Nat) (first : Bool) (rest : Bytes) :
    (readItems (fuel + 1) first (blank ++ ascii ']' :: rest) : Except Fault (List (Entry K V) × Bytes)) =
      .ok ([], rest) := by
  simp only [readItems, nextItem_done h, h.skipSpace_eq (show isSpace (ascii ']') = false by decide), bind,
    Except.bind, pure, Except.pure, List.tail_cons]

/-- One round of the reader reads what one bracket opens. -/
theorem readItems_item {first : Bool} {separator s : Bytes} (hseparator : Separator first separator) (hs : Opens s)
    (fuel : Nat) (rest : Bytes) :
    (readItems (fuel + 1) first (separator ++ (s ++ rest)) : Except Fault (List (Entry K V) × Bytes)) =
      readEntry (s ++ rest) >>= fun (e, s) => readItems fuel false s >>= fun (es, s) => .ok (e :: es, s) := by
  obtain ⟨bracket, r, rfl⟩ := hs
  have hspace : isSpace bracket.opening = false := by cases bracket <;> decide
  have hclose : bracket.opening ≠ ascii ']' := by cases bracket <;> decide
  rw [readItems, List.cons_append, nextItem_item hseparator hspace hclose]
  rfl

/-- Entries that are read one by one are read in a list. -/
theorem readItems_listed {text : Entry K V → Bytes → Prop}
    (hopens : ∀ {e : Entry K V} {s : Bytes}, text e s → Opens s)
    (hread : ∀ {e : Entry K V} {s : Bytes}, text e s → ∀ rest, readEntry (s ++ rest) = .ok (e, rest)) {first : Bool}
    {es : List (Entry K V)} {body : Bytes} (h : Listed text first es body) {fuel : Nat} (hfuel : es.length < fuel)
    (rest : Bytes) : readItems fuel first (body ++ ascii ']' :: rest) = .ok (es, rest) := by
  induction h generalizing fuel with
  | done hblank =>
    obtain ⟨fuel, rfl⟩ : ∃ n, fuel = n + 1 := ⟨fuel - 1, by omega⟩
    exact readItems_done hblank fuel _ rest
  | item hseparator hs _ ih =>
    obtain ⟨fuel, rfl⟩ : ∃ n, fuel = n + 1 := ⟨fuel - 1, by omega⟩
    rw [List.append_assoc, List.append_assoc, readItems_item hseparator (hopens hs), hread hs]
    simp only [bind, Except.bind, ih (Nat.lt_of_succ_lt_succ hfuel)]

theorem readEntries_bracketed {α : Type} {text : α → Bytes → Prop} {as : List α} {before list : Bytes}
    (hbefore : Blank before) (h : Bracketed .list text as list) (after : Bytes) :
    ∃ body fuel, Listed text true as body ∧ as.length < fuel ∧
      (readEntries (before ++ (list ++ after)) : Except Fault (List (Entry K V) × Bytes)) =
        readItems fuel true (body ++ ascii ']' :: after) := by
  obtain ⟨body, hbody, rfl⟩ := h
  refine ⟨body, (body ++ ascii ']' :: after).length + 1, hbody, ?_, ?_⟩
  · have hlength := hbody.length_le
    rw [Bool.toNat_true] at hlength
    rw [List.length_append, List.length_cons]
    omega
  · rw [List.cons_append, List.append_assoc, readEntries, hbefore.skipSpace_eq (by decide)]
    rfl

/-! ## What is written -/

theorem writeEntry_append (layout : Layout) (level : Nat) (e : Entry K V) (s : Bytes) :
    writeEntry layout level e ++ s =
      ascii '{' :: memberText layout (level + 1) .key (Scalar.write e.key) (
        ascii ',' :: memberText layout (level + 1) .value (Scalar.write e.value) (
          ascii ',' :: memberText layout (level + 1) .created (Scalar.write e.created) (
            ascii ',' :: memberText layout (level + 1) .accessed (Scalar.write e.accessed) (
              layout.newline level ++ ascii '}' :: s)))) := by
  simp only [writeEntry, Layout.bracketed, memberText, List.flatMap_cons, List.flatMap_nil,
    List.cons_append, List.append_assoc, List.append_nil, List.nil_append]

variable [LawfulScalar K] [LawfulScalar V]

omit [LawfulScalar V] in
theorem read_blank {blank : Bytes} (hblank : Blank blank) (k : K) {s : Bytes} (h : Ends s) :
    Scalar.read (blank ++ (Scalar.write k ++ s)) = .ok (k, s) := by
  rw [← LawfulScalar.read_skipSpace, Json.skipSpace_append hblank, LawfulScalar.read_skipSpace,
    LawfulScalar.read_write k s h]

theorem readEntry_writeEntry (layout : Layout) (level : Nat) (e : Entry K V) (s : Bytes) :
    readEntry (writeEntry layout level e ++ s) = .ok (e, s) := by
  rw [writeEntry_append, readEntry, Json.skipSpace_cons (by decide)]
  simp only [if_true]
  generalize hend : layout.newline level ++ ascii '}' :: s = text₄
  generalize haccessed : ascii ',' ::
    memberText layout (level + 1) .accessed (Scalar.write e.accessed) text₄ = text₃
  generalize hcreated : ascii ',' ::
    memberText layout (level + 1) .created (Scalar.write e.created) text₃ = text₂
  generalize hvalue : ascii ',' ::
    memberText layout (level + 1) .value (Scalar.write e.value) text₂ = text₁
  generalize hkey : memberText layout (level + 1) .key (Scalar.write e.key) text₁ = text
  have hcomma : ∀ r : Bytes, Ends (ascii ',' :: r) := ends_cons (by decide)
  have hends : Ends text₄ := by
    rw [← hend]
    exact (blank_newline layout level).ends (ends_cons (by decide) s)
  obtain ⟨fuel, hfuel⟩ : ∃ fuel, text.length + 1 = fuel + 5 := by
    refine ⟨text.length - 4, ?_⟩
    simp only [← hkey, ← hvalue, ← hcreated, ← haccessed, ← hend, memberText, List.length_append,
      List.length_cons]
    omega
  have hread₁ : readMembers (K := K) (V := V) (fuel + 5) true {} text =
      readMembers (fuel + 4) false { key := some e.key } text₁ := by
    rw [← hkey]
    refine readMembers_member layout (.first (blank_newline layout (level + 1))) (fuel + 4) rfl fun blank hblank => ?_
    rw [Draft.read, read_blank hblank e.key (hvalue ▸ hcomma _)]
    rfl
  have hread₂ : readMembers (V := V) (fuel + 4) false { key := some e.key } text₁ =
      readMembers (fuel + 3) false { key := some e.key, value := some e.value } text₂ := by
    rw [← hvalue]
    refine readMembers_member layout (separator_newline layout (level + 1)) (fuel + 3) rfl fun blank hblank => ?_
    rw [Draft.read, read_blank hblank e.value (hcreated ▸ hcomma _)]
    rfl
  have hread₃ : readMembers (fuel + 3) false { key := some e.key, value := some e.value } text₂ =
      readMembers (fuel + 2) false
        { key := some e.key, value := some e.value, created := some e.created } text₃ := by
    rw [← hcreated]
    refine readMembers_member layout (separator_newline layout (level + 1)) (fuel + 2) rfl fun blank hblank => ?_
    rw [Draft.read, read_blank hblank e.created (haccessed ▸ hcomma _)]
    rfl
  have hread₄ : readMembers (fuel + 2) false
        { key := some e.key, value := some e.value, created := some e.created } text₃ =
      readMembers (fuel + 1) false
        ⟨some e.key, some e.value, some e.created, some e.accessed⟩ text₄ := by
    rw [← haccessed]
    refine readMembers_member layout (separator_newline layout (level + 1)) (fuel + 1) rfl fun blank hblank => ?_
    rw [Draft.read, read_blank hblank e.accessed hends]
    rfl
  have hread : readMembers (K := K) (V := V) (text.length + 1) true {} text =
      .ok (⟨some e.key, some e.value, some e.created, some e.accessed⟩, s) := by
    rw [hfuel, hread₁, hread₂, hread₃, hread₄, ← hend, readMembers_done (blank_newline layout level)]
  rw [readObject, hread]
  rfl

theorem readEntries_writeEntries (layout : Layout) (es : List (Entry K V)) :
    readEntries (writeEntries layout es) = .ok (es, []) := by
  have htext : Bracketed .list (fun e s => s = writeEntry layout 1 e) es (writeEntries layout es) :=
    bracketed_written layout 0 rfl rfl fun _ _ => rfl
  obtain ⟨body, fuel, hbody, hfuel, hread⟩ := readEntries_bracketed (K := K) (V := V) blank_nil htext []
  rw [List.nil_append, List.append_nil] at hread
  rw [hread]
  refine readItems_listed (fun h => ?_) (fun h rest => ?_) hbody hfuel []
  · exact ⟨.object, _, h.trans rfl⟩
  · rw [h, readEntry_writeEntry]

/-- The bytes of entries decode to just these entries, in either layout. -/
theorem decode_encode (layout : Layout) (es : List (Entry K V)) :
    decode (encode layout (some es)) = .ok (some es) := by
  have hread := readEntries_writeEntries layout es
  have hfull : (writeEntries layout es).isEmpty = false := by
    cases es <;> rfl
  rw [encode, decode, hfull, if_neg (by simp), hread]
  rfl

end

/-! ## Kinds of snapshots -/

section
variable {K V : Type} [Scalar K] [Scalar V]

theorem decode_encode_none (layout : Layout) :
    decode (encode layout (none : Option (List (Entry K V)))) =
      .ok (none : Option (List (Entry K V))) := rfl

theorem encode_some_ne_nil (layout : Layout) (es : List (Entry K V)) : encode layout (some es) ≠ [] := by
  cases es <;> simp [encode, writeEntries, Layout.bracketed]

variable (K V) in
/-- The text of a snapshot tells which snapshot it is. Whoever reads it need not know in which layout it was
written. -/
structure Faithful : Prop where
  present : ∀ (layout : Layout) (es : List (Entry K V)), decode (encode layout (some es)) = .ok (some es)
  absent : ∀ layout : Layout, decode (encode layout (none : Option (List (Entry K V)))) =
    .ok (none : Option (List (Entry K V)))
  nonempty : ∀ (layout : Layout) (es : List (Entry K V)), encode layout (some es) ≠ []
  injective : ∀ (layout layout' : Layout) (a b : Option (List (Entry K V))),
    encode layout a = encode layout' b → a = b

variable [LawfulScalar K] [LawfulScalar V]

theorem decode_encode_option (layout : Layout) (data : Option (List (Entry K V))) :
    decode (encode layout data) = .ok data := by
  cases data with
  | none => exact decode_encode_none layout
  | some es => exact decode_encode layout es

variable (K V) in
theorem faithful_of_lawful : Faithful K V := by
  refine ⟨decode_encode, decode_encode_none, encode_some_ne_nil, fun layout layout' a b hsame => ?_⟩
  have hread : (Except.ok a : Except Fault (Option (List (Entry K V)))) = .ok b := by
    rw [← decode_encode_option layout a, hsame, decode_encode_option]
  exact Except.ok.inj hread

end

/-- Snapshots of strings, of 32-bit numbers, of strings that may be absent, and of 64-bit numbers under
64-bit keys. -/
theorem snapshot_faithful :
    Faithful String String ∧ Faithful String UInt32 ∧ Faithful String (Option String) ∧
      Faithful Int64 Int64 :=
  ⟨faithful_of_lawful String String, faithful_of_lawful String UInt32,
    faithful_of_lawful String (Option String), faithful_of_lawful Int64 Int64⟩

end ExpiringCache.Snapshot
