import GraphRead.Cursor
import GraphRead.Proofs.Json.Text
import GraphRead.Proofs.Value.Tagged
/-!
What the text of a cursor is read as.

A cursor is written in three layers: the tagged JSON of its values, the bytes of that text, and
their base64. The two outer layers lose nothing, so two cursors have one text exactly if they have
one tagged form (`encode_inj`), and reading the text comes down to reading the tagged form, provided
that it is not deeper than JSON may be (`decode_encode`).
-/

namespace GraphRead

namespace Value

/-- A text under the name of its kind is plain JSON. -/
theorem plain_tag (name text : String) : (tag name text).Plain :=
  ⟨by show [typeKey, valueKey].Nodup; decide, trivial, trivial, trivial⟩

theorem keys_taggedMembers (members : List (String × Value)) :
    (taggedMembers members).map Prod.fst = members.map Prod.fst := by
  induction members with
  | nil => rfl
  | cons member rest ih =>
    rw [taggedMembers, List.map_cons, List.map_cons, ih]

mutual

/-- The tagged form of a value is plain JSON. -/
theorem plain_tagged : ∀ v : Value, v.KeyedOnce → v.tagged.Plain
  | .null, _ => trivial
  | .boolean _, _ => trivial
  | .int i, _ => fits64_toInt i
  | .string _, _ => trivial
  | .float _, _ => plain_tag _ _
  | .enum _, _ => plain_tag _ _
  | .dateTime _, _ => plain_tag _ _
  | .uuid _, _ => plain_tag _ _
  | .bytes _, _ => plain_tag _ _
  | .list items, once => plainItems_taggedItems items (List.forall_mem_cons.mp once).2
  | .object members, once => by
    obtain ⟨here, within⟩ := List.forall_mem_cons.mp once
    refine ⟨?_, plainMembers_taggedMembers members within⟩
    rw [keys_taggedMembers]
    exact here

theorem plainItems_taggedItems : ∀ items : List Value,
    (∀ part ∈ partsOfItems items, part.KeysDiffer) → Json.PlainItems (taggedItems items)
  | [], _ => trivial
  | item :: rest, once =>
    have ⟨before, behind⟩ := List.forall_mem_append.mp once
    ⟨plain_tagged item before, plainItems_taggedItems rest behind⟩

theorem plainMembers_taggedMembers : ∀ members : List (String × Value),
    (∀ part ∈ partsOfMembers members, part.KeysDiffer) →
      Json.PlainMembers (taggedMembers members)
  | [], _ => trivial
  | (_, item) :: rest, once =>
    have ⟨before, behind⟩ := List.forall_mem_append.mp once
    ⟨plain_tagged item before, plainMembers_taggedMembers rest behind⟩

end

end Value

namespace Cursor

open Value

/-! ### Bytes -/

theorem toList_loop (bytes : ByteArray) (i : Nat) (read : List UInt8) :
    ByteArray.toList.loop bytes i read = read.reverse ++ bytes.data.toList.drop i := by
  fun_induction ByteArray.toList.loop bytes i read with
  | case1 i read within ih =>
    have inside : i < bytes.data.toList.length := by simpa using within
    have here : bytes.get! i = bytes.data.toList[i] := by
      rw [ByteArray.get!, getElem!_pos bytes.data i within, Array.getElem_toList]
    rw [ih, List.reverse_cons, List.append_assoc, here, List.singleton_append,
      List.getElem_cons_drop]
  | case2 i read beyond =>
    have none : bytes.data.toList.drop i = [] :=
      List.drop_eq_nil_of_le (by simpa using Nat.le_of_not_lt beyond)
    rw [none, List.append_nil]

theorem toList_eq (bytes : ByteArray) : bytes.toList = bytes.data.toList :=
  toList_loop bytes 0 []

/-- The bytes of a text are read as its characters. -/
theorem characters?_toUTF8 (text : List Char) :
    characters? (String.ofList text).toUTF8.toList = some text := by
  have same : (⟨(String.ofList text).toUTF8.toList.toArray⟩ : ByteArray) =
      (String.ofList text).toUTF8 := by
    rw [toList_eq]
  have valid : (String.ofList text).toUTF8.IsValidUTF8 := (String.ofList text).isValidUTF8
  rw [characters?, same, String.fromUTF8?, dif_pos valid]
  exact congrArg some String.toList_ofList

/-- Taking the text of a cursor apart gives the text of its tagged values. -/
theorem characters_encode (cursor : Cursor) :
    (Base64.decode Base64.urlSafe cursor.encode.toList).bind characters? =
      some (Value.tagged (.list cursor.values)).text := by
  rw [encode, String.toList_ofList, Base64.decode_encode Base64.urlSafe_lawful]
  exact characters?_toUTF8 _

/-! ### Texts of cursors -/

theorem ofTaggedItems_ne_nil {items : List Value} (present : items ≠ []) {found : List Value}
    (read : ofTaggedItems (taggedItems items) = .ok found) : found ≠ [] := by
  cases items with
  | nil => exact absurd rfl present
  | cons item rest =>
    obtain ⟨first, _, read⟩ := Fallible.bind_eq_ok.mp read
    obtain ⟨others, _, read⟩ := Fallible.bind_eq_ok.mp read
    cases read
    exact List.cons_ne_nil _ _

/-- The text of a cursor is read as its tagged form is, unless that is too deep. -/
theorem decode_encode {cursor : Cursor} (present : cursor.values ≠ [])
    (once : (list cursor.values).KeyedOnce) (back : Cursor) :
    decode cursor.encode = .ok back ↔ (tagged (.list cursor.values)).depth ≤ Json.maxDepth ∧
      ofTagged (tagged (.list cursor.values)) = .ok (.list back.values) := by
  have plain := plain_tagged _ once
  have whole := characters_encode cursor
  rw [decode, Fallible.mapError_eq_ok, decode?]
  cases bytes : Base64.decode Base64.urlSafe cursor.encode.toList with
  | none =>
    rw [bytes] at whole
    cases whole
  | some bs =>
    rw [bytes, Option.bind_some] at whole
    dsimp only
    rw [whole, Option.bind_some]
    by_cases deep : Json.maxDepth < (tagged (.list cursor.values)).depth
    · rw [Json.read_deep plain deep]
      exact ⟨fun read => (nomatch read), fun fits => absurd fits.1 (Nat.not_le.mpr deep)⟩
    · rw [Json.read_text plain (Nat.le_of_not_lt deep), and_iff_right (Nat.le_of_not_lt deep)]
      dsimp only
      cases read : ofTagged (tagged (.list cursor.values)) with
      | error failure => exact ⟨fun read => (nomatch read), fun read => (nomatch read)⟩
      | ok v =>
        obtain ⟨found, inside, same⟩ := Fallible.bind_eq_ok.mp read
        cases same
        cases found with
        | nil => exact absurd rfl (ofTaggedItems_ne_nil present inside)
        | cons first rest =>
          constructor
          · rintro ⟨rfl⟩
            rfl
          · intro same
            cases back
            cases same
            rfl

end Cursor

end GraphRead
