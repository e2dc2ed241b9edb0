import GraphRead.Proofs.Text.Base64
import GraphRead.Proofs.Text.DateTime
import GraphRead.Proofs.Text.Decimal
import GraphRead.Proofs.Text.Uuid
import GraphRead.Proofs.Value.Order
import GraphRead.Value.Json
import Mathlib.Data.List.Basic
/-!
What the tagged form of a value is read as.

The tagged form keeps the kinds of values apart. It is read back as the value with the digits that
its decimals are written with and with date-times cut to the millisecond (`ofTagged_tagged`), unless
some object in it has a string under the key which names a kind, or some date-time is not in the
profile of date-times: that part is then read as something else, or refused. So the value itself
comes back exactly if no object is taken for a tag, and all date-times are in the profile and not
finer than a millisecond (`ofTagged_tagged_iff`).
-/

namespace GraphRead

namespace Value

mutual

/-- A value as its tagged form is read. -/
def written : Value → Value
  | float d => float d.written
  | dateTime t => dateTime t.cut
  | list items => list (writtenItems items)
  | object members => object (writtenMembers members)
  | null => null
  | boolean b => boolean b
  | int i => int i
  | string s => string s
  | enum s => enum s
  | uuid u => uuid u
  | bytes bs => bytes bs

/-- The items of a list as their tagged forms are read. -/
def writtenItems : List Value → List Value
  | [] => []
  | item :: rest => written item :: writtenItems rest

/-- The members of an object as their tagged forms are read. -/
def writtenMembers : List (String × Value) → List (String × Value)
  | [] => []
  | (key, item) :: rest => (key, written item) :: writtenMembers rest

end

mutual

/-- A value, and all values inside it. -/
def parts : Value → List Value
  | list items => list items :: partsOfItems items
  | object members => object members :: partsOfMembers members
  | v => [v]

/-- All values inside a list. -/
def partsOfItems : List Value → List Value
  | [] => []
  | item :: rest => parts item ++ partsOfItems rest

/-- All values inside an object. -/
def partsOfMembers : List (String × Value) → List Value
  | [] => []
  | (_, item) :: rest => parts item ++ partsOfMembers rest

end

/-- A value is no object that has a key twice. -/
def KeysDiffer : Value → Prop
  | object members => (members.map Prod.fst).Nodup
  | _ => True

/-- A value is not taken for a tag: it is no object with a string under the key that names a
kind. -/
def Untagged : Value → Prop
  | object members => (Keyed.get? members typeKey).bind string? = none
  | _ => True

/-- A value is no date-time outside of the profile. -/
def InProfile : Value → Prop
  | dateTime t => t.InProfile
  | _ => True

/-- A value is no date-time that is finer than a millisecond. -/
def Whole : Value → Prop
  | dateTime t => t.IsWhole
  | _ => True

instance : DecidablePred KeysDiffer
  | object members => inferInstanceAs (Decidable (members.map Prod.fst).Nodup)
  | null | boolean _ | int _ | float _ | string _ | enum _ | dateTime _ | uuid _ | bytes _
  | list _ => isTrue trivial

instance : DecidablePred Untagged
  | object members =>
    inferInstanceAs (Decidable ((Keyed.get? members typeKey).bind string? = none))
  | null | boolean _ | int _ | float _ | string _ | enum _ | dateTime _ | uuid _ | bytes _
  | list _ => isTrue trivial

instance : DecidablePred InProfile
  | dateTime t => inferInstanceAs (Decidable t.InProfile)
  | null | boolean _ | int _ | float _ | string _ | enum _ | object _ | uuid _ | bytes _
  | list _ => isTrue trivial

instance : DecidablePred Whole
  | dateTime t => inferInstanceAs (Decidable t.IsWhole)
  | null | boolean _ | int _ | float _ | string _ | enum _ | object _ | uuid _ | bytes _
  | list _ => isTrue trivial

/-- No object in a value has a key twice. -/
def KeyedOnce (v : Value) : Prop := ∀ part ∈ v.parts, part.KeysDiffer

/-- Nothing in a value is taken for a tag, and the date-times in it are in the profile and not finer
than a millisecond. -/
def Kept (v : Value) : Prop :=
  ∀ part ∈ v.parts, part.Untagged ∧ part.InProfile ∧ part.Whole

instance (v : Value) : Decidable v.KeyedOnce :=
  inferInstanceAs (Decidable (∀ part ∈ v.parts, part.KeysDiffer))

instance (v : Value) : Decidable v.Kept :=
  inferInstanceAs (Decidable (∀ part ∈ v.parts, part.Untagged ∧ part.InProfile ∧ part.Whole))

theorem get?_taggedMembers (members : List (String × Value)) (key : String) :
    Keyed.get? (taggedMembers members) key = (Keyed.get? members key).map tagged := by
  induction members with
  | nil => rfl
  | cons member rest ih =>
    obtain ⟨k, v⟩ := member
    rw [taggedMembers, Keyed.get?, Keyed.get?, ih]
    split <;> rfl

theorem string?_tagged (v : Value) : v.tagged.string? = v.string? := by
  cases v <;> rfl

/-- An object declares a kind exactly if there is a string under the key that names one. -/
theorem declaredTag?_taggedMembers (members : List (String × Value)) :
    declaredTag? (taggedMembers members) = (Keyed.get? members typeKey).bind string? := by
  rw [declaredTag?, get?_taggedMembers, Option.bind_map]
  exact congrArg _ (funext string?_tagged)

theorem ofTagged_tag (name text : String) : ofTagged (tag name text) = ofTag name text := rfl

theorem fits64_toInt (i : Int64) : fits64 i.toInt = true := by
  have low := Int64.le_toInt i
  have high := Int64.toInt_lt i
  unfold fits64
  rw [Bool.and_eq_true, decide_eq_true_eq, decide_eq_true_eq]
  exact ⟨low, high⟩

mutual

/-- The tagged form of a value is read as the value. -/
theorem ofTagged_tagged : ∀ v : Value, (∀ part ∈ v.parts, part.Untagged ∧ part.InProfile) →
    ofTagged v.tagged = .ok v.written
  | .null, _ => rfl
  | .boolean _, _ => rfl
  | .int i, _ => by
    rw [tagged, ofTagged, ofTaggedNumber, if_pos (fits64_toInt i), Int64.ofInt_toInt, written]
  | .float d, _ => by
    rw [tagged, ofTagged_tag, ofTag, if_pos rfl, String.toList_ofList, Decimal.read_text, written]
  | .string _, _ => rfl
  | .enum _, _ => rfl
  | .dateTime t, clear => by
    have profile : t.InProfile := (List.forall_mem_singleton.mp clear).2
    rw [tagged, ofTagged_tag, ofTag, if_neg (by decide), if_neg (by decide), if_pos rfl,
      String.toList_ofList, DateTime.read_text profile, written]
  | .uuid u, _ => by
    rw [tagged, ofTagged_tag, ofTag, if_neg (by decide), if_neg (by decide), if_neg (by decide),
      if_pos rfl, String.toList_ofList, Uuid.read_text, written]
  | .bytes bs, _ => by
    rw [tagged, ofTagged_tag, ofTag, if_neg (by decide), if_neg (by decide), if_neg (by decide),
      if_neg (by decide), if_pos rfl, readBytes, String.toList_ofList,
      Base64.decode_encode Base64.standard_lawful, written]
    rfl
  | .list items, clear => by
    have inside := ofTaggedItems_taggedItems items (List.forall_mem_cons.mp clear).2
    rw [tagged, ofTagged, inside, written]
    rfl
  | .object members, clear => by
    obtain ⟨⟨untagged, -⟩, within⟩ := List.forall_mem_cons.mp clear
    have inside := ofTaggedMembers_taggedMembers members within
    rw [tagged, ofTagged, (declaredTag?_taggedMembers members).trans untagged, inside, written]
    rfl

theorem ofTaggedItems_taggedItems : ∀ items : List Value,
    (∀ part ∈ partsOfItems items, part.Untagged ∧ part.InProfile) →
    ofTaggedItems (taggedItems items) = .ok (writtenItems items)
  | [], _ => rfl
  | item :: rest, clear => by
    obtain ⟨before, behind⟩ := List.forall_mem_append.mp clear
    have here := ofTagged_tagged item before
    have later := ofTaggedItems_taggedItems rest behind
    rw [taggedItems, ofTaggedItems, here, later, writtenItems]
    rfl

theorem ofTaggedMembers_taggedMembers : ∀ members : List (String × Value),
    (∀ part ∈ partsOfMembers members, part.Untagged ∧ part.InProfile) →
    ofTaggedMembers (taggedMembers members) = .ok (writtenMembers members)
  | [], _ => rfl
  | (key, item) :: rest, clear => by
    obtain ⟨before, behind⟩ := List.forall_mem_append.mp clear
    have here := ofTagged_tagged item before
    have later := ofTaggedMembers_taggedMembers rest behind
    rw [taggedMembers, ofTaggedMembers, here, later, writtenMembers]
    rfl

end

mutual

/-- What is read is the same value exactly if nothing is cut off its date-times. -/
theorem same_written_iff : ∀ v : Value, same v.written v = true ↔ ∀ part ∈ v.parts, part.Whole
  | .null => by simp [written, same, parts, Whole]
  | .boolean _ => by simp [written, same, parts, Whole]
  | .int _ => by simp [written, same, parts, Whole]
  | .float d => by simp [written, same, parts, Whole, Decimal.same_written]
  | .string _ => by simp [written, same, parts, Whole]
  | .enum _ => by simp [written, same, parts, Whole]
  | .dateTime t => by simp [written, same, parts, Whole, DateTime.same_cut_iff]
  | .uuid _ => by simp [written, same, parts, Whole]
  | .bytes _ => by simp [written, same, parts, Whole]
  | .list items => by
    rw [written, same, sameItems_written_iff items, parts, List.forall_mem_cons]
    exact (and_iff_right trivial).symm
  | .object members => by
    rw [written, same, sameMembers_written_iff members, parts, List.forall_mem_cons]
    exact (and_iff_right trivial).symm

theorem sameItems_written_iff : ∀ items : List Value,
    sameItems (writtenItems items) items = true ↔ ∀ part ∈ partsOfItems items, part.Whole
  | [] => by simp [writtenItems, sameItems, partsOfItems]
  | item :: rest => by
    rw [writtenItems, sameItems, Bool.and_eq_true, same_written_iff item,
      sameItems_written_iff rest, partsOfItems, List.forall_mem_append]

theorem sameMembers_written_iff : ∀ members : List (String × Value),
    sameMembers (writtenMembers members) members = true ↔
      ∀ part ∈ partsOfMembers members, part.Whole
  | [] => by simp [writtenMembers, sameMembers, partsOfMembers]
  | (key, item) :: rest => by
    rw [writtenMembers, sameMembers, Bool.and_eq_true, Bool.and_eq_true, beq_self_eq_true,
      same_written_iff item, sameMembers_written_iff rest, partsOfMembers, List.forall_mem_append]
    exact and_congr_left' (and_iff_right rfl)

end

/-! ### Objects that are taken for tags, and date-times outside of the profile -/

/-- What a tag stands for is a decimal, an enumeration value, a date-time, an identifier or
bytes. -/
@[elab_as_elim]
theorem ofTag_cases {motive : Value → Prop} {name text : String} {v : Value}
    (read : ofTag name text = .ok v) (decimal : ∀ d, motive (float d))
    (word : ∀ s, motive (enum s)) (time : ∀ t : DateTime, t.InProfile → motive (dateTime t))
    (identifier : ∀ u, motive (uuid u)) (binary : ∀ bs, motive (bytes bs)) : motive v := by
  unfold ofTag at read
  split at read
  · split at read <;> cases read
    exact decimal _
  split at read
  · cases read
    exact word _
  split at read
  · split at read
    · cases read
      exact time _ (DateTime.inProfile_of_read ‹_›)
    · cases read
  split at read
  · split at read <;> cases read
    exact identifier _
  split at read
  · obtain ⟨bs, _, same⟩ := Fallible.map_eq_ok.mp read
    cases same
    exact binary _
  · cases read

/-- What a tag stands for is no object. -/
theorem not_object_of_ofTag {name text : String} {v : Value} (read : ofTag name text = .ok v)
    (members : List (String × Value)) : same v (object members) = false :=
  ofTag_cases read (fun _ => rfl) (fun _ => rfl) (fun _ _ => rfl) (fun _ => rfl) fun _ => rfl

mutual

/-- If a value comes back from its tagged form, then nothing in it was taken for a tag, and all its
date-times are in the profile. -/
theorem clear_of_same : ∀ (v : Value) {back : Value}, ofTagged v.tagged = .ok back →
    same back v = true → ∀ part ∈ v.parts, part.Untagged ∧ part.InProfile
  | .null => fun _ _ => List.forall_mem_singleton.mpr ⟨trivial, trivial⟩
  | .boolean _ => fun _ _ => List.forall_mem_singleton.mpr ⟨trivial, trivial⟩
  | .int _ => fun _ _ => List.forall_mem_singleton.mpr ⟨trivial, trivial⟩
  | .float _ => fun _ _ => List.forall_mem_singleton.mpr ⟨trivial, trivial⟩
  | .string _ => fun _ _ => List.forall_mem_singleton.mpr ⟨trivial, trivial⟩
  | .enum _ => fun _ _ => List.forall_mem_singleton.mpr ⟨trivial, trivial⟩
  | .dateTime t => by
    intro read kept
    rw [tagged, ofTagged_tag, ofTag, if_neg (by decide), if_neg (by decide), if_pos rfl,
      String.toList_ofList] at read
    split at read
    · rename_i taken
      cases read
      exact List.forall_mem_singleton.mpr ⟨trivial, DateTime.inProfile_of_same taken kept⟩
    · cases read
  | .uuid _ => fun _ _ => List.forall_mem_singleton.mpr ⟨trivial, trivial⟩
  | .bytes _ => fun _ _ => List.forall_mem_singleton.mpr ⟨trivial, trivial⟩
  | .list items => by
    intro read kept
    obtain ⟨found, inside, read⟩ := Fallible.bind_eq_ok.mp read
    cases read
    exact List.forall_mem_cons.mpr ⟨⟨trivial, trivial⟩, clearItems_of_same items inside kept⟩
  | .object members => by
    intro read kept
    rw [tagged, ofTagged] at read
    cases declared : declaredTag? (taggedMembers members) with
    | some name =>
      rw [declared] at read
      rw [not_object_of_ofTag read members] at kept
      cases kept
    | none =>
      rw [declared] at read
      obtain ⟨found, inside, read⟩ := Fallible.bind_eq_ok.mp read
      cases read
      have untagged := (declaredTag?_taggedMembers members).symm.trans declared
      exact List.forall_mem_cons.mpr
        ⟨⟨untagged, trivial⟩, clearMembers_of_same members inside kept⟩

theorem clearItems_of_same : ∀ (items : List Value) {back : List Value},
    ofTaggedItems (taggedItems items) = .ok back → sameItems back items = true →
    ∀ part ∈ partsOfItems items, part.Untagged ∧ part.InProfile
  | [] => fun _ _ _ present => nomatch present
  | item :: rest => by
    intro read kept
    obtain ⟨first, here, read⟩ := Fallible.bind_eq_ok.mp read
    obtain ⟨others, later, read⟩ := Fallible.bind_eq_ok.mp read
    cases read
    rw [sameItems, Bool.and_eq_true] at kept
    exact List.forall_mem_append.mpr
      ⟨clear_of_same item here kept.1, clearItems_of_same rest later kept.2⟩

theorem clearMembers_of_same : ∀ (members : List (String × Value))
    {back : List (String × Value)}, ofTaggedMembers (taggedMembers members) = .ok back →
    sameMembers back members = true →
    ∀ part ∈ partsOfMembers members, part.Untagged ∧ part.InProfile
  | [] => fun _ _ _ present => nomatch present
  | (key, item) :: rest => by
    intro read kept
    obtain ⟨first, here, read⟩ := Fallible.bind_eq_ok.mp read
    obtain ⟨others, later, read⟩ := Fallible.bind_eq_ok.mp read
    cases read
    rw [sameMembers, Bool.and_eq_true, Bool.and_eq_true] at kept
    exact List.forall_mem_append.mpr
      ⟨clear_of_same item here kept.1.2, clearMembers_of_same rest later kept.2⟩

end

end Value

end GraphRead
