import ExpiringCache.Proofs.EntrySpelling
import ExpiringCache.Proofs.TornSnapshot

/-!
Snapshots read from any of their spellings. An object's members are counted while they are read: each is there
afterwards as often as a field was called like it, whatever else the object has. Main statement: whichever spelling is
chosen, the reader finds the entries that were meant, and if a member of one entry is missing or repeated or its list
has another length, it finds none at all.
-/
namespace ExpiringCache.Snapshot
set_option autoImplicit false

open Text (ascii)
open Json (Blank Bracket Ends Fault Formed Listed Member Opens Separator bind_eq_ok isSpace map_eq_ok skipValue)
open Spelling (Spells)

/-! ## Names -/

theorem memberOf_eq_some {name : String} {member : Member} (h : memberOf name = some member) :
    name = member.name := by
  have hfound := List.find?_some h
  exact (of_decide_eq_true hfound).symm

theorem name_eq_iff {name : String} {member : Member} (h : memberOf name = some member) (m : Member) :
    name = m.name ↔ m = member := by
  constructor
  · rintro rfl
    rw [memberOf_name] at h
    exact Option.some.inj h
  · rintro rfl
    exact memberOf_eq_some h

theorem name_ne {name : String} (h : memberOf name = none) (m : Member) : name ≠ m.name := by
  rintro rfl
  rw [memberOf_name] at h
  cases h

theorem memberOf_eq_none {name : String} (h : ∀ m : Member, name ≠ m.name) : memberOf name = none := by
  cases hname : memberOf name with
  | none => rfl
  | some member => exact absurd (memberOf_eq_some hname) (h member)

/-! ## The members of an object -/

section
variable {α β : Type} [Scalar α] [Spelling α] [LawfulSpelling α]

theorem map_read_ok {s r : Bytes} {b : β} (put : α → β)
    (h : ((Scalar.read s).map fun x => (put x.1, x.2)) = .ok (b, r)) : skipValue s = .ok r ∧ ∃ a, b = put a := by
  obtain ⟨⟨a, rest⟩, hread, hput⟩ := map_eq_ok h
  cases hput
  exact ⟨LawfulSpelling.skipValue_eq hread, a, rfl⟩

theorem map_read_eq {a : α} {blank s rest : Bytes} (put : α → β) (h : Spells a s) (hblank : Blank blank)
    (hends : Ends rest) :
    ((Scalar.read (blank ++ (s ++ rest))).map fun x => (put x.1, x.2)) = .ok (put a, rest) := by
  rw [LawfulSpelling.read_eq h hblank hends]
  rfl

theorem present_ok {member : Member} {x : Option α} {a : α} (h : present member x = .ok a) : x.isSome = true := by
  cases x with
  | some _ => rfl
  | none =>
    rw [present, LawfulSpelling.absent_eq] at h
    cases h

end

section
variable {K V : Type} [Scalar K] [Scalar V]

/-- Reads the value of a field that is called `name`. -/
def Draft.take (d : Draft K V) (name : String) (s : Bytes) : Except Fault (Draft K V × Bytes) :=
  match memberOf name with
  | some member => if d.has member then .error (.duplicate member) else d.read member s
  | none => (skipValue s).map fun r => (d, r)

theorem readNamed_eq (d : Draft K V) (name : String) {before : Bytes} (h : Blank before) (s : Bytes) :
    readNamed d name (before ++ ascii ':' :: s) = d.take name s := by
  rw [readNamed, Draft.take]
  cases memberOf name with
  | some member => simp only [h.colon_eq, bind, Except.bind]
  | none =>
    simp only [h.colon_eq, bind, Except.bind]
    cases skipValue s <;> rfl

/-- One round of the reader takes one field. -/
theorem readMembers_item {first : Bool} {separator : Bytes} (hseparator : Separator first separator) {f : Field}
    {s : Bytes} (hf : f.Spelled s) (d : Draft K V) (fuel : Nat) (rest : Bytes) :
    ∃ blank, Blank blank ∧ readMembers (fuel + 1) first d (separator ++ (s ++ rest)) =
      d.take f.name (blank ++ (f.value ++ rest)) >>= fun (d, s) => readMembers fuel false d s := by
  obtain ⟨name, before, after, hname, hbefore, hafter, rfl⟩ := hf
  obtain ⟨body, rfl, hbody⟩ := hname.stringBody_eq
  refine ⟨after, hafter, ?_⟩
  simp only [List.cons_append, List.append_assoc, readMembers, nextName_item hseparator, bind, Except.bind, hbody,
    readNamed_eq d f.name hbefore]

/-- What has been read so far belongs to `e`. -/
structure Draft.Of (d : Draft K V) (e : Entry K V) : Prop where
  key : ∀ k ∈ d.key, k = e.key
  value : ∀ v ∈ d.value, v = e.value
  created : ∀ t ∈ d.created, t = e.created
  accessed : ∀ t ∈ d.accessed, t = e.accessed

theorem Draft.finish_eq {d : Draft K V} {e : Entry K V} (h : d.Of e) (hall : ∀ m, d.has m = true) :
    d.finish = .ok e := by
  obtain ⟨k, hkey⟩ := Option.isSome_iff_exists.mp (hall .key)
  obtain ⟨v, hvalue⟩ := Option.isSome_iff_exists.mp (hall .value)
  obtain ⟨c, hcreated⟩ := Option.isSome_iff_exists.mp (hall .created)
  obtain ⟨a, haccessed⟩ := Option.isSome_iff_exists.mp (hall .accessed)
  rw [Draft.finish, hkey, hvalue, hcreated, haccessed, h.key k hkey, h.value v hvalue, h.created c hcreated,
    h.accessed a haccessed]
  rfl

variable [Spelling K] [Spelling V] [LawfulSpelling K] [LawfulSpelling V]

/-- What is read of a member could be passed over, and it is there afterwards. -/
theorem Draft.read_ok {d d' : Draft K V} {member : Member} {s r : Bytes} (h : d.read member s = .ok (d', r)) :
    skipValue s = .ok r ∧ ∀ m, d'.has m = (d.has m || m = member) := by
  cases member with
  | key =>
    obtain ⟨hskip, k, rfl⟩ := map_read_ok (fun k => ({ d with key := some k } : Draft K V)) h
    exact ⟨hskip, fun m => by cases m <;> simp [Draft.has]⟩
  | value =>
    obtain ⟨hskip, v, rfl⟩ := map_read_ok (fun v => ({ d with value := some v } : Draft K V)) h
    exact ⟨hskip, fun m => by cases m <;> simp [Draft.has]⟩
  | created =>
    obtain ⟨hskip, t, rfl⟩ := map_read_ok (fun t => ({ d with created := some t } : Draft K V)) h
    exact ⟨hskip, fun m => by cases m <;> simp [Draft.has]⟩
  | accessed =>
    obtain ⟨hskip, t, rfl⟩ := map_read_ok (fun t => ({ d with accessed := some t } : Draft K V)) h
    exact ⟨hskip, fun m => by cases m <;> simp [Draft.has]⟩

theorem Draft.take_ok {d d' : Draft K V} {name : String} {s r : Bytes} (h : d.take name s = .ok (d', r)) :
    skipValue s = .ok r ∧ ∀ m, (d'.has m).toNat = (d.has m).toNat + if name = m.name then 1 else 0 := by
  rw [Draft.take] at h
  split at h
  · rename_i member hname
    split at h
    · cases h
    · rename_i hfree
      obtain ⟨hskip, hhas⟩ := Draft.read_ok h
      refine ⟨hskip, fun m => ?_⟩
      rw [hhas]
      by_cases hm : m = member
      · rw [if_pos ((name_eq_iff hname m).mpr hm), hm]
        simp [hfree]
      · rw [if_neg (mt (name_eq_iff hname m).mp hm)]
        simp [hm]
  · rename_i hname
    obtain ⟨rest, hskip, hd⟩ := map_eq_ok h
    cases hd
    exact ⟨hskip, fun m => by rw [if_neg (name_ne hname m)]; rfl⟩

theorem mentions_cons (f : Field) (fields : List Field) (m : Member) :
    mentions (f :: fields) m = (if f.name = m.name then 1 else 0) + mentions fields m := by
  simp only [mentions, List.countP_cons, decide_eq_true_eq]
  exact Nat.add_comm ..

/-- If the members of an object are read, then to the end of the object, and each one is there as often as a field was
called like it. -/
theorem readMembers_ok {first : Bool} {fields : List Field} {body : Bytes}
    (h : Listed Field.Spelled first fields body) (hfields : ∀ f ∈ fields, Formed .value f.value) {fuel : Nat}
    {d d' : Draft K V} {rest r : Bytes}
    (hread : readMembers fuel first d (body ++ ascii '}' :: rest) = .ok (d', r)) :
    r = rest ∧ ∀ m, (d'.has m).toNat = (d.has m).toNat + mentions fields m := by
  induction h generalizing fuel d with
  | done hblank =>
    cases fuel with
    | zero => cases hread
    | succ fuel =>
      rw [readMembers_done hblank] at hread
      cases hread
      exact ⟨rfl, fun m => rfl⟩
  | @item first f fields separator s tail hseparator hf htail ih =>
    obtain ⟨hvalue, hfields⟩ := List.forall_mem_cons.mp hfields
    cases fuel with
    | zero => cases hread
    | succ fuel =>
      obtain ⟨blank, hblank, hround⟩ := readMembers_item hseparator hf d fuel (tail ++ ascii '}' :: rest)
      rw [List.append_assoc, List.append_assoc, hround] at hread
      obtain ⟨⟨d₁, s₁⟩, htake, hlater⟩ := bind_eq_ok hread
      obtain ⟨hskip, hhas⟩ := Draft.take_ok htake
      have hends : Ends (tail ++ ascii '}' :: rest) := htail.ends .object rest
      rw [hvalue.skipValue_eq hblank hends] at hskip
      cases hskip
      obtain ⟨hrest, hlast⟩ := ih hfields hlater
      refine ⟨hrest, fun m => ?_⟩
      rw [hlast, hhas, mentions_cons, Nat.add_assoc]

/-! ## Objects that are entries -/

theorem Draft.read_eq {d : Draft K V} {e : Entry K V} (h : d.Of e) {member : Member} {blank value rest : Bytes}
    (hvalue : MemberText e member value) (hblank : Blank blank) (hends : Ends rest) :
    ∃ d' : Draft K V, d.read member (blank ++ (value ++ rest)) = .ok (d', rest) ∧ d'.Of e := by
  cases member with
  | key =>
    exact ⟨_, map_read_eq (fun k => ({ d with key := some k } : Draft K V)) hvalue hblank hends,
      { h with key := by simp }⟩
  | value =>
    exact ⟨_, map_read_eq (fun v => ({ d with value := some v } : Draft K V)) hvalue hblank hends,
      { h with value := by simp }⟩
  | created =>
    exact ⟨_, map_read_eq (fun t => ({ d with created := some t } : Draft K V)) hvalue hblank hends,
      { h with created := by simp }⟩
  | accessed =>
    exact ⟨_, map_read_eq (fun t => ({ d with accessed := some t } : Draft K V)) hvalue hblank hends,
      { h with accessed := by simp }⟩

theorem Draft.take_eq {d : Draft K V} {e : Entry K V} (h : d.Of e) {f : Field} (hf : FieldOf e f)
    (hfree : ∀ m : Member, f.name = m.name → d.has m = false) {blank rest : Bytes} (hblank : Blank blank)
    (hends : Ends rest) :
    ∃ d' : Draft K V, d.take f.name (blank ++ (f.value ++ rest)) = .ok (d', rest) ∧ d'.Of e := by
  cases hf with
  | @member member value hvalue =>
    obtain ⟨d', hread, hd'⟩ := Draft.read_eq h hvalue hblank hends
    refine ⟨d', ?_, hd'⟩
    simp only [Draft.take, memberOf_name, hfree member rfl, Bool.false_eq_true, if_false, hread]
  | @other name value hname hvalue =>
    refine ⟨d, ?_, h⟩
    simp only [Draft.take, memberOf_eq_none hname, hvalue.skipValue_eq hblank hends]
    rfl

theorem FieldOf.formed {e : Entry K V} {f : Field} (h : FieldOf e f) : Formed .value f.value := by
  cases h with
  | @member member value hvalue => cases member <;> exact LawfulSpelling.formed hvalue
  | other _ hvalue => exact hvalue

theorem readMembers_eq {e : Entry K V} {first : Bool} {fields : List Field} {body : Bytes}
    (h : Listed Field.Spelled first fields body) (hfields : ∀ f ∈ fields, FieldOf e f) {d : Draft K V} (hd : d.Of e)
    (honce : ∀ m, (d.has m).toNat + mentions fields m ≤ 1) {fuel : Nat} (hfuel : fields.length < fuel)
    (rest : Bytes) :
    ∃ d' : Draft K V, readMembers fuel first d (body ++ ascii '}' :: rest) = .ok (d', rest) ∧ d'.Of e := by
  induction h generalizing fuel d with
  | done hblank =>
    obtain ⟨fuel, rfl⟩ : ∃ n, fuel = n + 1 := ⟨fuel - 1, by omega⟩
    exact ⟨d, readMembers_done hblank fuel _ d rest, hd⟩
  | @item first f fields separator s tail hseparator hf htail ih =>
    obtain ⟨hfield, hfields⟩ := List.forall_mem_cons.mp hfields
    obtain ⟨fuel, rfl⟩ : ∃ n, fuel = n + 1 := ⟨fuel - 1, by omega⟩
    rw [List.length_cons] at hfuel
    have hends : Ends (tail ++ ascii '}' :: rest) := htail.ends .object rest
    have hfree : ∀ m : Member, f.name = m.name → d.has m = false := by
      intro m hm
      have hone := honce m
      rw [mentions_cons, if_pos hm] at hone
      cases hhas : d.has m with
      | false => rfl
      | true =>
        rw [hhas, Bool.toNat_true] at hone
        omega
    obtain ⟨blank, hblank, hround⟩ := readMembers_item hseparator hf d fuel (tail ++ ascii '}' :: rest)
    obtain ⟨d₁, htake, hd₁⟩ := Draft.take_eq hd hfield hfree hblank hends
    have honce₁ : ∀ m, (d₁.has m).toNat + mentions fields m ≤ 1 := by
      intro m
      have hone := honce m
      rw [mentions_cons] at hone
      rw [(Draft.take_ok htake).2 m]
      omega
    obtain ⟨d', hread, hd'⟩ := ih hfields hd₁ honce₁ (Nat.lt_of_succ_lt_succ hfuel)
    refine ⟨d', ?_, hd'⟩
    rw [List.append_assoc, List.append_assoc, hround, htake]
    exact hread

theorem readObject_eq {e : Entry K V} {fields : List Field} {body : Bytes}
    (h : Listed Field.Spelled true fields body) (hfields : ∀ f ∈ fields, FieldOf e f)
    (honce : ∀ m, mentions fields m = 1) (rest : Bytes) :
    readObject (body ++ ascii '}' :: rest) = .ok (e, rest) := by
  have hempty : ∀ m, ({} : Draft K V).has m = false := fun m => by cases m <;> rfl
  have hfuel : fields.length < (body ++ ascii '}' :: rest).length + 1 := by
    have hlength := h.length_le
    rw [Bool.toNat_true] at hlength
    rw [List.length_append, List.length_cons]
    omega
  have hdraft : ({} : Draft K V).Of e := ⟨nofun, nofun, nofun, nofun⟩
  obtain ⟨d, hread, hd⟩ := readMembers_eq h hfields hdraft (fun m => by rw [hempty, honce, Bool.toNat_false]) hfuel
    rest
  obtain ⟨-, hhas⟩ := readMembers_ok h (fun f hf => (hfields f hf).formed) hread
  have hall : ∀ m, d.has m = true := by
    intro m
    have hone := hhas m
    rw [hempty, honce, Bool.toNat_false] at hone
    exact Bool.toNat_eq_one.mp hone
  rw [readObject, hread]
  simp only [bind, Except.bind, Draft.finish_eq hd hall]
  rfl

/-! ## Objects that are none -/

theorem Draft.finish_ok {d : Draft K V} {e : Entry K V} (h : d.finish = .ok e) (m : Member) : d.has m = true := by
  obtain ⟨k, hkey, h⟩ := bind_eq_ok h
  obtain ⟨v, hvalue, h⟩ := bind_eq_ok h
  obtain ⟨c, hcreated, h⟩ := bind_eq_ok h
  obtain ⟨a, haccessed, -⟩ := bind_eq_ok h
  cases m with
  | key => exact present_ok hkey
  | value => exact present_ok hvalue
  | created => exact present_ok hcreated
  | accessed => exact present_ok haccessed

theorem readObject_ok {fields : List Field} {body : Bytes} (h : Listed Field.Spelled true fields body)
    (hfields : ∀ f ∈ fields, Formed .value f.value) {rest r : Bytes} {e : Entry K V}
    (hread : readObject (body ++ ascii '}' :: rest) = .ok (e, r)) (m : Member) : mentions fields m = 1 := by
  obtain ⟨⟨d, s⟩, hmembers, hread⟩ := bind_eq_ok hread
  obtain ⟨e', hfinish, -⟩ := bind_eq_ok hread
  obtain ⟨-, hhas⟩ := readMembers_ok h hfields hmembers
  have hempty : ({} : Draft K V).has m = false := by cases m <;> rfl
  have hone := hhas m
  rw [Draft.finish_ok hfinish m, hempty, Bool.toNat_true, Bool.toNat_false, Nat.zero_add] at hone
  exact hone.symm

/-! ## Lists -/

section
variable {α : Type} [Scalar α] [Spelling α] [LawfulSpelling α]

theorem readNth_eq {β : Type} {text : β → Bytes → Prop} {b : β} {bs : List β} {body : Bytes} (index : Nat)
    (h : Listed text (index = 0) (b :: bs) body) (a : α) (htext : ∀ s, text b s → Spells a s) (rest : Bytes) :
    ∃ tail, Listed text false bs tail ∧
      readNth index (body ++ ascii ']' :: rest) = .ok (a, tail ++ ascii ']' :: rest) := by
  cases h with
  | @item _ _ _ separator s tail hseparator hs htail =>
    have hspells := htext s hs
    have hread := LawfulSpelling.read_eq hspells Json.blank_nil (htail.ends .list rest)
    obtain ⟨c, r, rfl, hspace, hclose⟩ := (LawfulSpelling.formed hspells).head
    refine ⟨tail, htail, ?_⟩
    rw [List.append_assoc, List.append_assoc, List.cons_append]
    simp only [readNth, nextItem_item hseparator hspace hclose, bind, Except.bind]
    exact hread

/-- Where a value of a list is read, there was one, and what is left is the list after it. -/
theorem readNth_ok {values : List Bytes} {body : Bytes} (index : Nat) (h : Listed Eq (index = 0) values body)
    (hvalues : ∀ v ∈ values, Formed .value v) {rest r : Bytes} {a : α}
    (hread : readNth index (body ++ ascii ']' :: rest) = .ok (a, r)) :
    ∃ v vs tail, values = v :: vs ∧ Listed Eq false vs tail ∧ r = tail ++ ascii ']' :: rest := by
  cases h with
  | done hblank =>
    simp only [readNth, nextItem_done hblank, bind, Except.bind] at hread
    cases hread
  | @item _ v vs separator s tail hseparator hs htail =>
    subst hs
    have hvalue := hvalues v (List.mem_cons_self ..)
    have hends : Ends (tail ++ ascii ']' :: rest) := htail.ends .list rest
    have hskip := hvalue.skipValue_eq Json.blank_nil hends
    obtain ⟨b, t, rfl, hspace, hclose⟩ := hvalue.head
    rw [List.append_assoc, List.append_assoc, List.cons_append] at hread
    simp only [readNth, nextItem_item hseparator hspace hclose, bind, Except.bind] at hread
    rw [List.nil_append, List.cons_append, LawfulSpelling.skipValue_eq hread] at hskip
    exact ⟨b :: t, vs, tail, rfl, htail, Except.ok.inj hskip⟩

end

theorem endList_eq {blank : Bytes} (h : Blank blank) (r : Bytes) : endList (blank ++ ascii ']' :: r) = .ok r := by
  rw [endList, h.skipSpace_eq (by decide)]
  rfl

theorem endList_ok {values : List Bytes} {body : Bytes} (h : Listed Eq false values body) {rest r : Bytes}
    (hread : endList (body ++ ascii ']' :: rest) = .ok r) : values = [] := by
  cases h with
  | done _ => rfl
  | item hseparator _ _ =>
    cases hseparator with
    | next hbefore _ =>
      rw [List.append_assoc, List.append_assoc, List.cons_append, endList, hbefore.skipSpace_eq (by decide)] at hread
      simp only [if_neg (show ascii ',' ≠ ascii ']' by decide)] at hread
      split at hread <;> cases hread

theorem readTuple_eq {e : Entry K V} {body : Bytes}
    (h : Listed (MemberText e) true [.key, .value, .created, .accessed] body) (rest : Bytes) :
    readTuple (body ++ ascii ']' :: rest) = .ok (e, rest) := by
  obtain ⟨s₁, h₁, hkey⟩ := readNth_eq 0 h e.key (fun _ hs => hs) rest
  obtain ⟨s₂, h₂, hvalue⟩ := readNth_eq 1 h₁ e.value (fun _ hs => hs) rest
  obtain ⟨s₃, h₃, hcreated⟩ := readNth_eq 2 h₂ e.created (fun _ hs => hs) rest
  obtain ⟨s₄, h₄, haccessed⟩ := readNth_eq 3 h₃ e.accessed (fun _ hs => hs) rest
  cases h₄ with
  | done hblank =>
    simp only [readTuple, hkey, hvalue, hcreated, haccessed, endList_eq hblank, bind, Except.bind]
    rfl

theorem readTuple_ok {values : List Bytes} {body : Bytes} (h : Listed Eq true values body)
    (hvalues : ∀ v ∈ values, Formed .value v) {rest r : Bytes} {e : Entry K V}
    (hread : readTuple (body ++ ascii ']' :: rest) = .ok (e, r)) : values.length = 4 := by
  obtain ⟨⟨k, s⟩, hkey, hread⟩ := bind_eq_ok hread
  obtain ⟨_, values, s, rfl, h, rfl⟩ := readNth_ok 0 h hvalues hkey
  obtain ⟨-, hvalues⟩ := List.forall_mem_cons.mp hvalues
  obtain ⟨⟨v, s⟩, hvalue, hread⟩ := bind_eq_ok hread
  obtain ⟨_, values, s, rfl, h, rfl⟩ := readNth_ok 1 h hvalues hvalue
  obtain ⟨-, hvalues⟩ := List.forall_mem_cons.mp hvalues
  obtain ⟨⟨c, s⟩, hcreated, hread⟩ := bind_eq_ok hread
  obtain ⟨_, values, s, rfl, h, rfl⟩ := readNth_ok 2 h hvalues hcreated
  obtain ⟨-, hvalues⟩ := List.forall_mem_cons.mp hvalues
  obtain ⟨⟨a, s⟩, haccessed, hread⟩ := bind_eq_ok hread
  obtain ⟨_, values, s, rfl, h, rfl⟩ := readNth_ok 3 h hvalues haccessed
  obtain ⟨s, hend, -⟩ := bind_eq_ok hread
  rw [endList_ok h hend]
  rfl

/-! ## Entries -/

theorem readEntry_eq {e : Entry K V} {s : Bytes} (h : EntryText e s) (rest : Bytes) :
    readEntry (s ++ rest) = .ok (e, rest) := by
  cases h with
  | object hfields honce htext =>
    obtain ⟨body, hbody, rfl⟩ := htext
    rw [List.cons_append, List.append_assoc, readEntry, Json.skipSpace_cons (by decide)]
    exact readObject_eq hbody hfields honce rest
  | list htext =>
    obtain ⟨body, hbody, rfl⟩ := htext
    rw [List.cons_append, List.append_assoc, readEntry, Json.skipSpace_cons (by decide)]
    exact readTuple_eq hbody rest

theorem readEntry_error {s : Bytes} (h : Defective s) (rest : Bytes) :
    ∃ fault, (readEntry (s ++ rest) : Except Fault (Entry K V × Bytes)) = .error fault := by
  cases hread : (readEntry (s ++ rest) : Except Fault (Entry K V × Bytes)) with
  | error fault => exact ⟨fault, rfl⟩
  | ok x =>
    obtain ⟨e, r⟩ := x
    cases h with
    | object hfields hmentions htext =>
      obtain ⟨body, hbody, rfl⟩ := htext
      rw [List.cons_append, List.append_assoc, readEntry, Json.skipSpace_cons (by decide)] at hread
      exact absurd (readObject_ok hbody hfields hread _) hmentions
    | list hvalues hlength htext =>
      obtain ⟨body, hbody, rfl⟩ := htext
      rw [List.cons_append, List.append_assoc, readEntry, Json.skipSpace_cons (by decide)] at hread
      exact absurd (readTuple_ok hbody hvalues hread) hlength

/-! ## Lists of entries -/

omit [Scalar K] [Scalar V] [LawfulSpelling K] [LawfulSpelling V] in
theorem EntryText.opens {e : Entry K V} {s : Bytes} (h : EntryText e s) : Opens s := by
  cases h with
  | object _ _ htext => exact htext.opens
  | list htext => exact htext.opens

theorem Defective.opens {s : Bytes} (h : Defective s) : Opens s := by
  cases h with
  | object _ _ htext => exact htext.opens
  | list _ _ htext => exact htext.opens

/-- One entry that is none is enough. -/
theorem readItems_error {first : Bool} {xs : List (Option (Entry K V))} {body : Bytes}
    (h : Listed ItemText first xs body) (hnone : none ∈ xs) (fuel : Nat) (rest : Bytes) :
    ∃ fault, (readItems fuel first (body ++ ascii ']' :: rest) : Except Fault (List (Entry K V) × Bytes)) =
      .error fault := by
  induction h generalizing fuel with
  | done _ => cases hnone
  | @item first x xs separator s tail hseparator hs _ ih =>
    cases fuel with
    | zero => exact ⟨.endInList, rfl⟩
    | succ fuel =>
      rw [List.append_assoc, List.append_assoc]
      cases x with
      | none =>
        obtain ⟨fault, hfault⟩ := readEntry_error (K := K) (V := V) hs (tail ++ ascii ']' :: rest)
        refine ⟨fault, ?_⟩
        rw [readItems_item hseparator (Defective.opens hs), hfault]
        rfl
      | some e =>
        have hlater : none ∈ xs := (List.mem_cons.mp hnone).resolve_left nofun
        obtain ⟨fault, hfault⟩ := ih hlater fuel
        refine ⟨fault, ?_⟩
        rw [readItems_item hseparator (EntryText.opens hs), readEntry_eq hs]
        simp only [bind, Except.bind, hfault]

/-! ## Whole snapshots -/

theorem SnapshotText.ne_nil {α : Type} {text : α → Bytes → Prop} {as : List α} {s : Bytes}
    (h : SnapshotText text as s) : s ≠ [] := by
  obtain ⟨before, list, after, -, hlist, -, rfl⟩ := h
  obtain ⟨bracket, r, rfl⟩ := hlist.opens
  simp

variable (K V) in
/-- However the entries of a snapshot are spelled, just these are read, in their order. If one of them is none,
nothing is read. What is written is one of the spellings. -/
structure ReadsSpellings : Prop where
  accepts : ∀ {es : List (Entry K V)} {s : Bytes}, SnapshotText EntryText es s →
    SnapshotFile.interpret s = .ok (some es)
  refuses : ∀ {xs : List (Option (Entry K V))} {s : Bytes}, SnapshotText ItemText xs s → none ∈ xs →
    ∃ fault, (SnapshotFile.interpret s : Except SnapshotError (Option (List (Entry K V)))) = .error (.codec fault)
  written : ∀ (layout : Layout) (es : List (Entry K V)), SnapshotText EntryText es (encode layout (some es))

variable (K V) in
theorem readsSpellings_of_lawful : ReadsSpellings K V where
  accepts := by
    intro es s h
    have hs := h.ne_nil
    obtain ⟨before, list, after, hbefore, hlist, hafter, rfl⟩ := h
    obtain ⟨body, fuel, hbody, hfuel, hread⟩ := readEntries_bracketed (K := K) (V := V) hbefore hlist after
    rw [readItems_listed EntryText.opens readEntry_eq hbody hfuel] at hread
    rw [interpret_of_read hs hread, if_pos (List.all_eq_true.mpr hafter)]
  refuses := by
    intro xs s h hnone
    have hs := h.ne_nil
    obtain ⟨before, list, after, hbefore, hlist, -, rfl⟩ := h
    obtain ⟨body, fuel, hbody, -, hread⟩ := readEntries_bracketed (K := K) (V := V) hbefore hlist after
    obtain ⟨fault, hfault⟩ := readItems_error hbody hnone fuel after
    exact ⟨fault, interpret_eq_error hs (hread.trans hfault)⟩
  written := snapshotText_encode

end

/-- Snapshots of strings and of 32-bit numbers. -/
theorem snapshot_readsSpellings : ReadsSpellings String String ∧ ReadsSpellings String UInt32 :=
  ⟨readsSpellings_of_lawful String String, readsSpellings_of_lawful String UInt32⟩

/-- A half of a pair may stand alone where the string is only passed over. -/
example : (SnapshotFile.interpret (Text.bytesOf (
    " [\x7b\"last_access_date\" : 9, \"\\u0078\":[\x7b\"a\":\"\\uD83D\"\x7d,[ ],-1.5e+3], " ++
    "\"val\\u0075e\" :7,\"creation_date\":-3,\"x\":null,\"key\":\"\\ud83d\\uDE00\\/\"\x7d ,[\"b\" ,0,1,2]]\n")) :
      Except SnapshotError (Option (List (Entry String UInt32)))) =
    .ok (some [⟨"😀/", 7, -3, 9⟩, ⟨"b", 0, 1, 2⟩]) := by
  decide +kernel

/-- A member is repeated even if its name is spelled in another way. -/
example : (SnapshotFile.interpret (Text.bytesOf "[[\"b\",0,1,2],\x7b\"key\":\"a\",\"\\u006bey\":\"a\"\x7d]") :
    Except SnapshotError (Option (List (Entry String UInt32)))) = .error (.codec (.duplicate .key)) := by
  decide +kernel

end ExpiringCache.Snapshot
