import GraphRead.Proofs.Json.Scalar
import GraphRead.Proofs.Keyed
/-!
JSON that is written, as it is read.

Reading undoes writing for the values that have no real numbers and no key twice (`Plain`), as long
as they are at most as deep as the reader goes (`nested_text`, `read_text`). A deeper value is
refused (`nested_deep`, `read_deep`). Whatever is read, plain or not, fits in the levels that the
reader counts down, and no object in it has a key twice (`held_of_read`).
-/

namespace GraphRead.Json

open Reader

/-! ### Lists with commas -/

/-- Whether a character is passed over between the parts of a text. -/
def isGap (c : Char) : Bool := c = ' ' || c = '\n' || c = '\r' || c = '\t'

/-- A text goes on at once: there is a character, which is not passed over. -/
def Starts (text : List Char) : Prop := ∃ c rest, text = c :: rest ∧ isGap c = false

theorem Starts.append {text : List Char} (starts : Starts text) (behind : List Char) :
    Starts (text ++ behind) := by
  obtain ⟨c, rest, rfl, solid⟩ := starts
  exact ⟨c, rest ++ behind, rfl, solid⟩

theorem blanks_of_starts {text : List Char} (starts : Starts text) :
    blanks text = some ((), text) := by
  obtain ⟨c, rest, rfl, solid⟩ := starts
  have kept : (c :: rest).dropWhile isGap = c :: rest :=
    List.dropWhile_cons_of_neg (by rw [solid]; exact Bool.false_ne_true)
  exact congrArg (fun left => some ((), left)) kept

theorem mark_cons {c : Char} {rest : List Char} (solid : isGap c = false) (starts : Starts rest) :
    mark c (c :: rest) = some ((), rest) := by
  rw [mark, bind_of_some (blanks_of_starts ⟨c, rest, rfl, solid⟩), bind_of_some (word_cons c rest),
    blanks_of_starts starts]

theorem mark_of_ne {c d : Char} (differ : c ≠ d) (solid : isGap d = false) (rest : List Char) :
    mark c (d :: rest) = none := by
  rw [mark, bind_of_some (blanks_of_starts ⟨d, rest, rfl, solid⟩),
    bind_of_none (word_of_ne [] differ rest)]

/-- Texts with commas between them. -/
def separated : List (List Char) → List Char
  | [] => []
  | first :: rest => first ++ rest.flatMap fun text => ',' :: text

theorem itemsText_eq (items : List Json) : itemsText items = separated (items.map text) := by
  induction items with
  | nil => rfl
  | cons item rest ih =>
    cases rest with
    | nil =>
      rw [itemsText]
      exact (List.append_nil _).symm
    | cons next others =>
      rw [itemsText, ih]
      · rfl
      · exact fun same => nomatch same

/-- The text of a member: the key, and the value behind a colon. -/
def memberText (member : String × Json) : List Char :=
  stringText member.1 ++ ':' :: text member.2

theorem membersText_eq (members : List (String × Json)) :
    membersText members = separated (members.map memberText) := by
  induction members with
  | nil => rfl
  | cons member rest ih =>
    obtain ⟨key, item⟩ := member
    cases rest with
    | nil =>
      rw [membersText]
      exact (List.append_nil _).symm
    | cons next others =>
      rw [membersText, ih]
      · show _ = (stringText key ++ ':' :: text item) ++
          ',' :: separated ((next :: others).map memberText)
        rw [List.append_assoc, List.cons_append]
      · exact fun same => nomatch same

/-- Where a comma follows, a number ends. -/
theorem ends_more {α : Type} {shown : α → List Char} {rest : List Char} (ended : Ends rest)
    (items : List α) : Ends ((items.flatMap fun a => ',' :: shown a) ++ rest) := by
  cases items with
  | nil => exact ended
  | cons next more =>
    intro c here
    cases here
    decide

section Bracketed

variable {α : Type} (opening : Char) {closing : Char} {item : Reader Char α}
  {shown : α → List Char}

/-- Items with commas between them, as they stand in brackets. -/
def listed (item : Reader Char α) : Reader Char (List α) :=
  either
    (do
      let first ← item
      let more ← many (do mark ','; item)
      return first :: more)
    (pure [])

theorem listed_nil {input : List Char} (refused : item input = none) :
    listed item input = some ([], input) :=
  either_of_none (bind_of_none refused)

theorem listed_cons {input rest left : List Char} {a : α} {more : List α}
    (first : item input = some (a, rest))
    (others : many (do mark ','; item) rest = some (more, left)) :
    listed item input = some (a :: more, left) := by
  refine either_of_some ?_
  rw [bind_of_some first, bind_of_some others]
  rfl

/-- Items with commas in front of them are read, up to a place at which no further item is. -/
theorem many_more {items : List α} {rest : List Char}
    (each : ∀ a ∈ items, Starts (shown a) ∧
      ∀ behind, Ends behind → item (shown a ++ behind) = some (a, behind))
    (ended : Ends rest) (refused : (do mark ','; item) rest = none) :
    many (do mark ','; item) ((items.flatMap fun a => ',' :: shown a) ++ rest) =
      some (items, rest) := by
  refine many_append Ends (fun b present => ?_) ended refused
  obtain ⟨starts, reads⟩ := each b present
  refine ⟨List.cons_ne_nil _ _, fun behind c here => ?_, fun behind stop => ?_⟩
  · cases here
    decide
  · rw [List.cons_append, bind_of_some (mark_cons (by decide) (starts.append behind)),
      reads behind stop]

/-- Once the items are read, the brackets have to be closed. -/
theorem bracketed_of_listed {input left : List Char} {items : List α} {c : Char}
    (solid : isGap opening = false) (starts : Starts input) (firm : isGap c = false)
    (taken : listed item input = some (items, c :: left)) :
    bracketed opening closing item (opening :: input) =
      if closing = c then some (items, left) else none := by
  have shape : bracketed opening closing item = (do
      mark opening
      let items ← listed item
      blanks
      word [closing]
      return items) := rfl
  rw [shape, bind_of_some (mark_cons solid starts), bind_of_some taken,
    bind_of_some (blanks_of_starts ⟨c, left, rfl, firm⟩)]
  split
  · rename_i same
    rw [same, bind_of_some (word_cons c left)]
    rfl
  · rename_i differ
    exact bind_of_none (word_of_ne [] differ left)

/-- Items in brackets are read if each of them is, and if what closes the brackets is no item. -/
theorem bracketed_separated {items : List α} {rest : List Char}
    (each : ∀ a ∈ items, Starts (shown a) ∧
      ∀ behind, Ends behind → item (shown a ++ behind) = some (a, behind))
    (refused : item (closing :: rest) = none) (solid : isGap opening = false)
    (closes : isGap closing = false ∧ continues closing = false ∧ ',' ≠ closing) :
    bracketed opening closing item (opening :: (separated (items.map shown) ++ closing :: rest)) =
      some (items, rest) := by
  obtain ⟨close, stops, other⟩ := closes
  have ended : Ends (closing :: rest) := by
    rintro c ⟨rfl⟩
    exact stops
  refine Eq.trans (bracketed_of_listed opening solid ?_ close ?_) (if_pos rfl)
  · cases items with
    | nil => exact ⟨closing, rest, rfl, close⟩
    | cons a items =>
      rw [List.map_cons, separated, List.append_assoc]
      exact (each a List.mem_cons_self).1.append _
  · cases items with
    | nil => exact listed_nil refused
    | cons a items =>
      obtain ⟨⟨_, reads⟩, later⟩ := List.forall_mem_cons.mp each
      rw [List.map_cons, separated, List.flatMap_map, List.append_assoc]
      exact listed_cons (reads _ (ends_more ended items))
        (many_more later ended (bind_of_none (mark_of_ne other close rest)))

/-- Items in brackets are refused if one of them is. -/
theorem bracketed_of_refused {before behind : List α} {bad : α} {rest : List Char}
    (each : ∀ a ∈ before, Starts (shown a) ∧
      ∀ behind, Ends behind → item (shown a ++ behind) = some (a, behind))
    (starts : ∃ c text, shown bad = c :: text ∧ isGap c = false ∧ closing ≠ c)
    (refused : ∀ behind, Ends behind → item (shown bad ++ behind) = none)
    (solid : isGap opening = false) (closes : continues closing = false ∧ closing ≠ ',') :
    bracketed opening closing item
      (opening :: (separated ((before ++ bad :: behind).map shown) ++ closing :: rest)) = none := by
  obtain ⟨stops, other⟩ := closes
  have ended : Ends ((behind.flatMap fun a => ',' :: shown a) ++ closing :: rest) := by
    refine ends_more ?_ behind
    rintro c ⟨rfl⟩
    exact stops
  have halts := refused _ ended
  obtain ⟨c, text, start, firm, apart⟩ := starts
  cases before with
  | nil =>
    rw [List.nil_append, List.map_cons, separated, List.flatMap_map, List.append_assoc]
    rw [start, List.cons_append] at halts ⊢
    exact (bracketed_of_listed opening solid ⟨c, _, rfl, firm⟩ firm (listed_nil halts)).trans
      (if_neg apart)
  | cons a before =>
    obtain ⟨⟨first, reads⟩, later⟩ := List.forall_mem_cons.mp each
    -- the reader stops in front of the comma of the refused item
    have comma : Ends (',' :: (shown bad ++
        ((behind.flatMap fun a => ',' :: shown a) ++ closing :: rest))) := by
      rintro c ⟨rfl⟩
      decide
    have goes : Starts (shown bad ++
        ((behind.flatMap fun a => ',' :: shown a) ++ closing :: rest)) :=
      Starts.append ⟨c, text, start, firm⟩ _
    have others := many_more later comma ((bind_of_some (mark_cons (by decide) goes)).trans halts)
    rw [List.cons_append, List.map_cons, separated, List.flatMap_map, List.flatMap_append,
      List.flatMap_cons, List.append_assoc, List.append_assoc, List.append_assoc,
      List.cons_append]
    exact (bracketed_of_listed opening solid (first.append _) rfl
      (listed_cons (reads _ (ends_more comma before)) others)).trans (if_neg other)

end Bracketed

/-! ### Values -/

mutual

/-- How many arrays and objects stand around the innermost part of a value, itself included. -/
def depth : Json → Nat
  | array items => itemsDepth items + 1
  | object members => membersDepth members + 1
  | _ => 0

/-- The greatest depth of some items. -/
def itemsDepth : List Json → Nat
  | [] => 0
  | item :: rest => max (depth item) (itemsDepth rest)

/-- The greatest depth of some members. -/
def membersDepth : List (String × Json) → Nat
  | [] => 0
  | (_, item) :: rest => max (depth item) (membersDepth rest)

end

mutual

/-- Numbers are integers of 64 bits, and no object has a key twice. -/
def Plain : Json → Prop
  | number (.integer i) => fits64 i = true
  | number (.real _) => False
  | array items => PlainItems items
  | object members => (members.map Prod.fst).Nodup ∧ PlainMembers members
  | _ => True

/-- All items are plain. -/
def PlainItems : List Json → Prop
  | [] => True
  | item :: rest => Plain item ∧ PlainItems rest

/-- The values of all members are plain. -/
def PlainMembers : List (String × Json) → Prop
  | [] => True
  | (_, item) :: rest => Plain item ∧ PlainMembers rest

end

theorem stringText_starts (s : String) : Starts (stringText s) :=
  ⟨'"', _, rfl, rfl⟩

/-- An integer starts with a minus or a digit. -/
theorem ofInt_head (i : Int) :
    ∃ c rest, Digits.ofInt i = c :: rest ∧ (c = '-' ∨ Digits.isDigit c = true) := by
  unfold Digits.ofInt
  split
  · exact ⟨'-', _, rfl, .inl rfl⟩
  · obtain ⟨c, rest, cut⟩ := List.exists_cons_of_ne_nil (Digits.ofNat_ne_nil i.natAbs)
    refine ⟨c, rest, cut, .inr (Digits.isDigit_of_mem_ofNat (n := i.natAbs) ?_)⟩
    rw [cut]
    exact List.mem_cons_self

theorem ofInt_starts (i : Int) : Starts (Digits.ofInt i) := by
  obtain ⟨c, rest, cut, known⟩ := ofInt_head i
  refine ⟨c, rest, cut, ?_⟩
  simp only [isGap, Bool.or_eq_false_iff, decide_eq_false_iff_not]
  refine ⟨⟨⟨?_, ?_⟩, ?_⟩, ?_⟩ <;> rintro rfl <;> exact absurd known (by decide)

theorem text_starts {json : Json} (plain : json.Plain) : Starts json.text := by
  cases json with
  | null => exact ⟨'n', _, rfl, rfl⟩
  | boolean b => cases b <;> exact ⟨_, _, rfl, rfl⟩
  | number n =>
    cases n with
    | integer i => exact ofInt_starts i
    | real d => exact plain.elim
  | string s => exact stringText_starts s
  | array items => exact ⟨'[', _, rfl, rfl⟩
  | object members => exact ⟨'\x7b', _, rfl, rfl⟩

/-- A text that does not start with the letter of a word is a string or a number, or refused. -/
theorem scalar_cons {c : Char} (n : c ≠ 'n') (t : c ≠ 't') (f : c ≠ 'f') (rest : List Char) :
    scalar (c :: rest) = either (do return string (← quoted)) (do return number (← numeral))
      (c :: rest) := by
  rw [scalar, either_of_none, either_of_none, either_of_none]
  · exact bind_of_none (word_of_ne "alse".toList f.symm rest)
  · exact bind_of_none (word_of_ne "rue".toList t.symm rest)
  · exact bind_of_none (word_of_ne "ull".toList n.symm rest)

theorem quoted_of_ne {c : Char} (other : c ≠ '"') (rest : List Char) : quoted (c :: rest) = none :=
  bind_of_none (word_of_ne [] other.symm rest)

/-- A text that starts with neither a letter, a quote, a digit nor a minus is no value without
parts. -/
theorem scalar_of_mark {c : Char} (marks : c = '[' ∨ c = ']' ∨ c = '\x7b' ∨ c = '\x7d')
    (rest : List Char) : scalar (c :: rest) = none := by
  have noDigits : digits1 (c :: rest) = none := by
    refine bind_of_none (if_neg ?_)
    rcases marks with rfl | rfl | rfl | rfl <;> decide
  have noMinus : opt (satisfy (· = '-')) (c :: rest) = some (none, c :: rest) := by
    refine opt_of_none (if_neg ?_)
    rcases marks with rfl | rfl | rfl | rfl <;> decide
  have noWhole : wholeDigits (c :: rest) = none := by
    rcases marks with rfl | rfl | rfl | rfl <;> exact noDigits
  have noNumber : numeral (c :: rest) = none := by
    rw [numeral, bind_of_some noMinus, bind_of_none noWhole]
  rw [scalar_cons, either_of_none (bind_of_none (quoted_of_ne _ rest)), bind_of_none noNumber]
  all_goals rcases marks with rfl | rfl | rfl | rfl <;> decide

/-- A value without parts is read from its text. -/
theorem scalar_text {json : Json} (plain : json.Plain) (flat : json.depth = 0) {rest : List Char}
    (ended : Ends rest) : scalar (json.text ++ rest) = some (json, rest) := by
  cases json with
  | null => exact either_of_some (bind_of_some (word_append "null".toList rest))
  | boolean b =>
    cases b with
    | true =>
      have other : (do word "null".toList; return null : Reader Char Json)
          ("true".toList ++ rest) = none :=
        bind_of_none (word_of_ne "ull".toList (by decide) _)
      exact (either_of_none other).trans
        (either_of_some (bind_of_some (word_append "true".toList rest)))
    | false =>
      have other : (do word "null".toList; return null : Reader Char Json)
          ("false".toList ++ rest) = none :=
        bind_of_none (word_of_ne "ull".toList (by decide) _)
      have another : (do word "true".toList; return boolean true : Reader Char Json)
          ("false".toList ++ rest) = none :=
        bind_of_none (word_of_ne "rue".toList (by decide) _)
      exact ((either_of_none other).trans (either_of_none another)).trans
        (either_of_some (bind_of_some (word_append "false".toList rest)))
  | string s =>
    have start : (string s).text ++ rest =
        '"' :: (s.toList.flatMap characterText ++ ['"'] ++ rest) := rfl
    have read := quoted_stringText s rest
    rw [start, scalar_cons (by decide) (by decide) (by decide), ← start]
    exact either_of_some (bind_of_some read)
  | number n =>
    cases n with
    | real d => exact plain.elim
    | integer i =>
      have read := numeral_ofInt plain ended
      obtain ⟨c, behind, cut, known⟩ := ofInt_head i
      have other (d : Char) (letter : ¬(d = '-' ∨ Digits.isDigit d = true)) : c ≠ d := by
        rintro rfl
        exact letter known
      have start : (number (.integer i)).text ++ rest = c :: (behind ++ rest) := by
        show Digits.ofInt i ++ rest = _
        rw [cut, List.cons_append]
      rw [cut, List.cons_append] at read
      rw [start,
        scalar_cons (other 'n' (by decide)) (other 't' (by decide)) (other 'f' (by decide)),
        either_of_none (bind_of_none (quoted_of_ne (other '"' (by decide)) _)), bind_of_some read]
      rfl
  | array items => cases flat
  | object members => cases flat

theorem nested_of_scalar {limit : Nat} {json : Json} {input rest : List Char}
    (read : scalar input = some (json, rest)) : nested limit input = some (json, rest) := by
  cases limit with
  | zero => exact read
  | succ limit => exact either_of_some read

theorem bracketed_of_ne {α : Type} {opening closing c : Char} {item : Reader Char α}
    (differ : opening ≠ c) (solid : isGap c = false) (rest : List Char) :
    bracketed opening closing item (c :: rest) = none :=
  bind_of_none (mark_of_ne differ solid rest)

theorem memberText_append (key : String) (item : Json) (behind : List Char) :
    memberText (key, item) ++ behind = stringText key ++ ':' :: (item.text ++ behind) := by
  rw [memberText, List.append_assoc, List.cons_append]

/-- A member is read if its value is. -/
theorem memberText_read (key : String) {item : Json} {value : Reader Char Json}
    (plain : item.Plain)
    (reads : ∀ {behind}, Ends behind → value (item.text ++ behind) = some (item, behind)) :
    Starts (memberText (key, item)) ∧ ∀ behind, Ends behind →
      member value (memberText (key, item) ++ behind) = some ((key, item), behind) := by
  refine ⟨(stringText_starts key).append _, fun behind ended => ?_⟩
  have colon : mark ':' (':' :: (item.text ++ behind)) = some ((), item.text ++ behind) :=
    mark_cons rfl ((text_starts plain).append behind)
  rw [memberText_append, member, bind_of_some (quoted_stringText key _), bind_of_some colon,
    bind_of_some (reads ended)]
  rfl

/-- What closes an array or an object is no value. -/
theorem nested_of_closing {c : Char} (closing : c = ']' ∨ c = '\x7d') (limit : Nat)
    (rest : List Char) : nested limit (c :: rest) = none := by
  have flat : scalar (c :: rest) = none := by
    refine scalar_of_mark ?_ rest
    rcases closing with rfl | rfl <;> decide
  cases limit with
  | zero => exact flat
  | succ limit =>
    refine (either_of_none flat).trans ?_
    rcases closing with rfl | rfl
    · rw [either_of_none (bind_of_none (bracketed_of_ne (by decide) rfl rest)),
        bind_of_none (bracketed_of_ne (by decide) rfl rest)]
    · rw [either_of_none (bind_of_none (bracketed_of_ne (by decide) rfl rest)),
        bind_of_none (bracketed_of_ne (by decide) rfl rest)]

mutual

/-- A plain value is read from its text if it is not too deep, whatever does not belong to a number
behind it. -/
theorem nested_text : ∀ (json : Json) {limit : Nat} {rest : List Char}, json.Plain →
    json.depth ≤ limit → Ends rest → nested limit (json.text ++ rest) = some (json, rest)
  | .array items, 0, rest, plain, fits, _ => absurd fits (Nat.not_succ_le_zero _)
  | .array items, limit + 1, rest, plain, fits, _ => by
    have each := nested_items items plain (Nat.le_of_succ_le_succ fits)
    have read := bracketed_separated '[' each
      (nested_of_closing (.inl rfl) limit rest) rfl ⟨rfl, rfl, by decide⟩
    have start : (array items).text ++ rest =
        '[' :: (separated (items.map text) ++ ']' :: rest) := by
      rw [text, itemsText_eq, List.cons_append, List.append_assoc]
      rfl
    rw [start]
    refine (either_of_none (scalar_of_mark (.inl rfl) _)).trans (either_of_some ?_)
    rw [bind_of_some read]
    rfl
  | .object members, 0, rest, plain, fits, _ => absurd fits (Nat.not_succ_le_zero _)
  | .object members, limit + 1, rest, plain, fits, _ => by
    obtain ⟨distinct, plain⟩ := plain
    have each := nested_members members plain (Nat.le_of_succ_le_succ fits)
    have noMember : member (nested limit) ('\x7d' :: rest) = none :=
      bind_of_none (quoted_of_ne (by decide) rest)
    have read := bracketed_separated '\x7b' each noMember rfl
      ⟨rfl, rfl, by decide⟩
    have start : (object members).text ++ rest =
        '\x7b' :: (separated (members.map memberText) ++ '\x7d' :: rest) := by
      rw [text, membersText_eq, List.cons_append, List.append_assoc]
      rfl
    rw [start]
    refine (either_of_none (scalar_of_mark (.inr (.inr (.inl rfl))) _)).trans
      ((either_of_none (bind_of_none (bracketed_of_ne (by decide) rfl _))).trans ?_)
    rw [bind_of_some read, Keyed.ofList_of_nodup distinct]
    rfl
  | .null, _, _, plain, _, ended => nested_of_scalar (scalar_text plain rfl ended)
  | .boolean _, _, _, plain, _, ended => nested_of_scalar (scalar_text plain rfl ended)
  | .number _, _, _, plain, _, ended => nested_of_scalar (scalar_text plain rfl ended)
  | .string _, _, _, plain, _, ended => nested_of_scalar (scalar_text plain rfl ended)

theorem nested_items : ∀ (items : List Json) {limit : Nat}, PlainItems items →
    itemsDepth items ≤ limit → ∀ item ∈ items, Starts item.text ∧
      ∀ behind, Ends behind → nested limit (item.text ++ behind) = some (item, behind)
  | [], _, _, _ => fun _ present => nomatch present
  | item :: rest, limit, plain, fits => by
    obtain ⟨here, later⟩ := plain
    obtain ⟨first, others⟩ := Nat.max_le.mp fits
    refine List.forall_mem_cons.mpr ⟨⟨text_starts here, fun behind ended => ?_⟩, ?_⟩
    · exact nested_text item here first ended
    · exact nested_items rest later others

theorem nested_members : ∀ (members : List (String × Json)) {limit : Nat}, PlainMembers members →
    membersDepth members ≤ limit → ∀ entry ∈ members, Starts (memberText entry) ∧
      ∀ behind, Ends behind →
        member (nested limit) (memberText entry ++ behind) = some (entry, behind)
  | [], _, _, _ => fun _ present => nomatch present
  | (key, item) :: rest, limit, plain, fits => by
    obtain ⟨here, later⟩ := plain
    obtain ⟨first, others⟩ := Nat.max_le.mp fits
    refine List.forall_mem_cons.mpr ⟨?_, ?_⟩
    · exact memberText_read key here (nested_text item here first)
    · exact nested_members rest later others

end

/-- The text of a value that has parts starts with a bracket. -/
theorem text_of_depth_pos {json : Json} (deep : 0 < json.depth) :
    ∃ c rest, json.text = c :: rest ∧ (c = '[' ∨ c = '\x7b') := by
  cases json with
  | array items => exact ⟨'[', _, rfl, .inl rfl⟩
  | object members => exact ⟨'\x7b', _, rfl, .inr rfl⟩
  | _ => exact absurd deep (Nat.lt_irrefl 0)

mutual

/-- A plain value that is too deep is refused. -/
theorem nested_deep : ∀ (json : Json) {limit : Nat} {rest : List Char}, json.Plain →
    limit < json.depth → Ends rest → nested limit (json.text ++ rest) = none
  | .array items, 0, rest, plain, deep, _ => scalar_of_mark (.inl rfl) _
  | .array items, limit + 1, rest, plain, deep, _ => by
    obtain ⟨before, bad, behind, rfl, each, deeper, refused⟩ :=
      deep_items items plain (Nat.lt_of_succ_lt_succ deep)
    obtain ⟨c, text, start, bracket⟩ := text_of_depth_pos deeper
    have read : bracketed '[' ']' (nested limit)
        ('[' :: (separated ((before ++ bad :: behind).map Json.text) ++ ']' :: rest)) = none :=
      bracketed_of_refused '[' each
        ⟨c, text, start, by rcases bracket with rfl | rfl <;> exact ⟨rfl, by decide⟩⟩ refused rfl
        ⟨rfl, by decide⟩
    have start : (array (before ++ bad :: behind)).text ++ rest =
        '[' :: (separated ((before ++ bad :: behind).map Json.text) ++ ']' :: rest) := by
      rw [Json.text, itemsText_eq, List.cons_append, List.append_assoc]
      rfl
    rw [start]
    refine (either_of_none (scalar_of_mark (.inl rfl) _)).trans
      ((either_of_none (bind_of_none read)).trans (bind_of_none (bracketed_of_ne ?_ rfl _)))
    decide
  | .object members, 0, rest, plain, deep, _ => scalar_of_mark (.inr (.inr (.inl rfl))) _
  | .object members, limit + 1, rest, plain, deep, _ => by
    obtain ⟨before, bad, behind, rfl, each, refused⟩ :=
      deep_members members plain.2 (Nat.lt_of_succ_lt_succ deep)
    have read : bracketed '\x7b' '\x7d' (member (nested limit))
        ('\x7b' :: (separated ((before ++ bad :: behind).map memberText) ++ '\x7d' :: rest)) =
          none :=
      bracketed_of_refused '\x7b' each ⟨'"', _, rfl, rfl, by decide⟩ refused rfl ⟨rfl, by decide⟩
    have start : (object (before ++ bad :: behind)).text ++ rest =
        '\x7b' :: (separated ((before ++ bad :: behind).map memberText) ++ '\x7d' :: rest) := by
      rw [text, membersText_eq, List.cons_append, List.append_assoc]
      rfl
    rw [start]
    refine (either_of_none (scalar_of_mark (.inr (.inr (.inl rfl))) _)).trans
      ((either_of_none (bind_of_none (bracketed_of_ne ?_ rfl _))).trans (bind_of_none read))
    decide
  | .null, _, _, _, deep, _ => absurd deep (Nat.not_lt_zero _)
  | .boolean _, _, _, _, deep, _ => absurd deep (Nat.not_lt_zero _)
  | .number _, _, _, _, deep, _ => absurd deep (Nat.not_lt_zero _)
  | .string _, _, _, _, deep, _ => absurd deep (Nat.not_lt_zero _)

/-- Of items that are too deep together there is a first one that is. -/
theorem deep_items : ∀ (items : List Json) {limit : Nat}, PlainItems items →
    limit < itemsDepth items → ∃ before bad behind, items = before ++ bad :: behind ∧
      (∀ item ∈ before, Starts item.text ∧
        ∀ behind, Ends behind → nested limit (item.text ++ behind) = some (item, behind)) ∧
      0 < bad.depth ∧ ∀ behind, Ends behind → nested limit (bad.text ++ behind) = none
  | [], _, _, deep => absurd deep (Nat.not_lt_zero _)
  | item :: rest, limit, plain, deep => by
    obtain ⟨here, later⟩ := plain
    by_cases fits : item.depth ≤ limit
    · have deeper : limit < itemsDepth rest :=
        Nat.lt_of_not_le fun others => Nat.not_le.mpr deep (Nat.max_le.mpr ⟨fits, others⟩)
      obtain ⟨before, bad, behind, rfl, each, refused⟩ := deep_items rest later deeper
      refine ⟨item :: before, bad, behind, rfl, List.forall_mem_cons.mpr ⟨?_, each⟩, refused⟩
      exact ⟨text_starts here, fun behind ended => nested_text item here fits ended⟩
    · have deeper := Nat.lt_of_not_le fits
      exact ⟨[], item, rest, rfl, (fun _ present => nomatch present),
        Nat.lt_of_le_of_lt (Nat.zero_le _) deeper,
        fun behind ended => nested_deep item here deeper ended⟩

/-- Of members that are too deep together there is a first one that is. -/
theorem deep_members : ∀ (members : List (String × Json)) {limit : Nat}, PlainMembers members →
    limit < membersDepth members → ∃ before bad behind, members = before ++ bad :: behind ∧
      (∀ entry ∈ before, Starts (memberText entry) ∧ ∀ behind, Ends behind →
        member (nested limit) (memberText entry ++ behind) = some (entry, behind)) ∧
      ∀ behind, Ends behind → member (nested limit) (memberText bad ++ behind) = none
  | [], _, _, deep => absurd deep (Nat.not_lt_zero _)
  | (key, item) :: rest, limit, plain, deep => by
    obtain ⟨here, later⟩ := plain
    by_cases fits : item.depth ≤ limit
    · have deeper : limit < membersDepth rest :=
        Nat.lt_of_not_le fun others => Nat.not_le.mpr deep (Nat.max_le.mpr ⟨fits, others⟩)
      obtain ⟨before, bad, behind, rfl, each, refused⟩ := deep_members rest later deeper
      refine ⟨(key, item) :: before, bad, behind, rfl, List.forall_mem_cons.mpr ⟨?_, each⟩, refused⟩
      exact memberText_read key here (nested_text item here fits)
    · refine ⟨[], (key, item), rest, rfl, (fun _ present => nomatch present),
        fun behind ended => ?_⟩
      have value := nested_deep item here (Nat.lt_of_not_le fits) ended
      rw [memberText_append, member, bind_of_some (quoted_stringText key _),
        bind_of_some (mark_cons rfl ((text_starts here).append behind)), bind_of_none value]

end

/-- Reading undoes writing for plain values of at most the depth that reading accepts. -/
theorem read_text {json : Json} (plain : json.Plain) (shallow : json.depth ≤ maxDepth) :
    read json.text = some json := by
  have ended : Ends [] := fun _ here => nomatch here
  have value := nested_text json plain shallow ended
  rw [List.append_nil] at value
  refine whole_of_some ?_
  rw [document, bind_of_some (blanks_of_starts (text_starts plain)), bind_of_some value]
  rfl

/-- A plain value that is deeper is refused. -/
theorem read_deep {json : Json} (plain : json.Plain) (deep : maxDepth < json.depth) :
    read json.text = none := by
  have ended : Ends [] := fun _ here => nomatch here
  have value := nested_deep json plain deep ended
  rw [List.append_nil] at value
  have refused : document json.text = none := by
    rw [document, bind_of_some (blanks_of_starts (text_starts plain)), bind_of_none value]
  rw [read, whole, refused]

/-- A value that fits in so many levels of arrays and objects, of which no object has a key
twice. -/
inductive Held : Nat → Json → Prop
  | flat {levels : Nat} {json : Json} : json.depth = 0 → Held levels json
  | array {levels : Nat} {items : List Json} : (∀ item ∈ items, Held levels item) →
      Held (levels + 1) (array items)
  | object {levels : Nat} {members : List (String × Json)} : (members.map Prod.fst).Nodup →
      (∀ entry ∈ members, Held levels entry.2) → Held (levels + 1) (object members)

end GraphRead.Json
