import GraphRead.Proofs.Account.Bind
import GraphRead.Proofs.Binding.Fault
import GraphRead.Proofs.Schema.Faithful
/-!
Where a binding comes from.

What is bound at a position was gathered from selections that are reached there
(`Selection.Placed`), whatever has been merged on the way. So the page of a list is read from the
arguments of a field that is asked (`Pagination.ReadFrom`), and if nothing can be bound, something
that is asked is at fault (`Selection.Fault`). Both are shown in one go for whatever a record asks,
by induction on how deep the selection is (`Selection.fieldsTraced`).
-/

namespace GraphRead

open Fallible

/-! ### Pages -/

/-- An argument is left out, or null. -/
def Absent (arguments : List (String × Value)) (name : String) : Prop :=
  Keyed.get? arguments name = none ∨ Keyed.get? arguments name = some .null

/-- A cursor is what an argument encodes, or there is none and the argument is absent. -/
def CursorIn (arguments : List (String × Value)) (name : String) : Option Cursor → Prop
  | none => Absent arguments name
  | some cursor => ∃ text, Keyed.get? arguments name = some (.string text) ∧
      Cursor.decode text = .ok cursor

/-- A page is asked for by arguments: its size is a whole number that is not negative, in `first` or
in `last` and not in both, and its cursor stands beside it, in `after` or in `before`. -/
inductive Pagination.ReadFrom (arguments : List (String × Value)) : Pagination → Prop
  | forward {size : Int64} {cursor : Option Cursor}
    (first : Keyed.get? arguments "first" = some (.int size)) (natural : 0 ≤ size.toInt)
    (last : Absent arguments "last") (before : Absent arguments "before")
    (after : CursorIn arguments "after" cursor) :
    ReadFrom arguments (.forward size.toInt.toNat cursor)
  | backward {size : Int64} {cursor : Option Cursor}
    (last : Keyed.get? arguments "last" = some (.int size)) (natural : 0 ≤ size.toInt)
    (first : Absent arguments "first") (after : Absent arguments "after")
    (before : CursorIn arguments "before" cursor) :
    ReadFrom arguments (.backward size.toInt.toNat cursor)

namespace Selection

theorem limit?_ok {s : Selection} {argument : String} {path : Path} {limit : Option Nat}
    (done : s.limit? argument path = .ok limit) :
    (limit = none ∧ Absent s.arguments argument) ∨ ∃ size : Int64, limit = some size.toInt.toNat ∧
      0 ≤ size.toInt ∧ Keyed.get? s.arguments argument = some (.int size) := by
  unfold limit? argument? at done
  split at done
  · rename_i missing
    cases done
    exact .inl ⟨rfl, .inl missing⟩
  · rename_i null
    cases done
    exact .inl ⟨rfl, .inr null⟩
  · rename_i size found
    split at done
    · cases done
      exact .inr ⟨size, rfl, ‹_›, found⟩
    · cases done
  · cases done

theorem cursor?_ok {s : Selection} {argument : String} {path : Path} {cursor : Option Cursor}
    (done : s.cursor? argument path = .ok cursor) : CursorIn s.arguments argument cursor := by
  unfold cursor? argument? at done
  split at done
  · rename_i missing
    cases done
    exact .inl missing
  · rename_i null
    cases done
    exact .inr null
  · rename_i text found
    split at done
    · rename_i decoded
      cases done
      exact ⟨text, found, decoded⟩
    · cases done
  · cases done

/-- A page is read from the arguments of the field that asks for it. -/
theorem pagination_readFrom {s : Selection} {path : Path} {page : Pagination}
    (done : s.pagination path = .ok page) : page.ReadFrom s.arguments := by
  unfold pagination at done
  obtain ⟨first, isFirst, done⟩ := bind_eq_ok.mp done
  obtain ⟨last, isLast, done⟩ := bind_eq_ok.mp done
  obtain ⟨after, isAfter, done⟩ := bind_eq_ok.mp done
  obtain ⟨before, isBefore, done⟩ := bind_eq_ok.mp done
  have behind := cursor?_ok isAfter
  have ahead := cursor?_ok isBefore
  rcases limit?_ok isFirst with ⟨rfl, noFirst⟩ | ⟨size, rfl, natural, found⟩
  · rcases limit?_ok isLast with ⟨rfl, -⟩ | ⟨size, rfl, natural, found⟩
    · cases done
    · cases after with
      | some _ => cases done
      | none =>
        cases pure_eq_ok.mp done
        exact .backward found natural noFirst behind ahead
  · rcases limit?_ok isLast with ⟨rfl, noLast⟩ | ⟨_, rfl, -, -⟩
    · cases before with
      | some _ => cases done
      | none =>
        cases pure_eq_ok.mp done
        exact .forward found natural noLast ahead behind
    · cases done

end Selection

/-! ### What is reached -/

/-- An association that a record asks for, directly or below another one. -/
inductive BoundField.Asks : BoundField → BoundLink → Prop
  | here {f : BoundField} {key : String} {l : BoundLink} (linked : (key, l) ∈ f.links) : Asks f l
  | deeper {f inner : BoundField} {key : String} {l other : BoundLink} {target : Target}
    (linked : (key, l) ∈ f.links) (reached : target ∈ l.targets)
    (record : target.record? = some inner) (asks : Asks inner other) : Asks f other

namespace Selection

variable {schema : Schema}

theorem Opens.asked {here : Context} {s inner child : Selection} (opens : Opens schema here s inner)
    (asked : Asked schema here inner child) : Asked schema here s child := by
  induction opens with
  | self => exact asked
  | fragment filed suits _ ih => exact .fragment filed suits (ih asked)

theorem Asked.tidy {here : Context} {s child : Selection} (asked : Asked schema here s child)
    (tidy : s.Tidy) : child.Tidy := by
  induction asked with
  | child present =>
    obtain ⟨-, -, -, -, children, -⟩ := tidy
    exact children _ present
  | fragment filed _ _ ih => exact ih (tidy.fragment filed)

/-- The page of every list that an association leads to is read from the arguments of a field that
is asked below a selection. -/
def Paged (schema : Schema) (start : Context) (top : Selection) (l : BoundLink) : Prop :=
  ∀ c, .connection c ∈ l.targets → ∃ here s child, LeadsTo schema start top here s ∧
    Asked schema here s child ∧ here.offer? schema child.name = some (.association l.association) ∧
      c.pagination.ReadFrom child.arguments

/-! ### Selections that are merged -/

/-- What is written is gathered from itself. -/
theorem Form.Gathered.of_written {written : Selection → Prop} {s : Selection} (tidy : s.Tidy)
    (known : written s) : Form.filed.Gathered written s := by
  induction tidy generalizing written with
  | @intro s _ keyed _ _ _ _ children _ =>
    refine .intro ⟨s, known, rfl⟩ (fun entry present => ?_) fun entry present fragment listed => ?_
    · have own := keyed entry present
      refine children entry present ⟨⟨s, known, rfl, ?_⟩, own.symm⟩
      show (entry.2.outputKey, entry.2) ∈ s.children
      rw [← own]
      exact present
    · exact ⟨s, known, rfl, mem_fragmentList.mpr ⟨_, present, listed⟩⟩

/-- What is asked in some selections of a context. -/
def AskedOf (schema : Schema) (here : Context) (written : Selection → Prop) (child : Selection) :
    Prop := ∃ s, written s ∧ Asked schema here s child

/-- Selections stand at one position of a context. -/
structure Placed (schema : Schema) (start : Context) (top : Selection) (here : Context)
    (written : Selection → Prop) : Prop where
  tidy : ∀ s, written s → s.Tidy
  meets : ∀ s t, written s → written t → Meets schema start top here s t

/-- A selection stands at its own position. -/
theorem Placed.top {start : Context} {top : Selection} (tidy : top.Tidy) :
    Placed schema start top start (· = top) where
  tidy _ same := same ▸ tidy
  meets _ _ same same' := by
    rw [same, same']
    exact .top

section Placed

variable {start here : Context} {top : Selection} {written : Selection → Prop}
  (placed : Placed schema start top here written)

include placed

theorem Placed.leads {s : Selection} (known : written s) : LeadsTo schema start top here s :=
  (placed.meets s s known known).leadsTo

/-- Whatever is asked of a name, and under one key if keys count, stands at one position where it is
entered. -/
theorem Placed.next {asked : Selection → Prop} {name : String} {offer : Offer} {next : Context}
    (offered : here.offer? schema name = some offer) (enters : offer.Enters schema next)
    (known : ∀ child, asked child → AskedOf schema here written child ∧ child.name = name)
    (keyed : offer.isPooled = true ∨ ∃ key, ∀ child, asked child → child.outputKey = key) :
    Placed schema start top next asked where
  tidy child present := by
    obtain ⟨⟨s, above, asked⟩, -⟩ := known child present
    exact asked.tidy (placed.tidy s above)
  meets child other left right := by
    obtain ⟨⟨s, above, asked⟩, rfl⟩ := known child left
    obtain ⟨⟨t, above', asked'⟩, same⟩ := known other right
    have together : offer.isPooled = true ∨ child.outputKey = other.outputKey :=
      keyed.imp_right fun ⟨_, each⟩ => (each child left).trans (each other right).symm
    exact .step (placed.meets s t above above') asked asked' same.symm together offered enters

theorem Placed.gathered_of_opens {s inner : Selection} (known : written s)
    (opens : Opens schema here s inner) :
    Form.filed.GatheredUnder (AskedOf schema here written) inner.children := by
  intro entry present
  obtain ⟨-, keyed, -, -, children, -⟩ := opens.tidy (placed.tidy s known)
  exact .of_written (children entry present)
    ⟨⟨s, known, opens.asked (.child present)⟩, (keyed entry present).symm⟩

/-- Where fields that are asked of a position clash, something is at fault. -/
theorem Placed.clash {key : String}
    (clash : Form.filed.ClashAmong (AskedOf schema here written) key) (path : Path) :
    Fault schema start top (.query ⟨path, .duplicateField key⟩) := by
  obtain ⟨v, w, ⟨s, above, left⟩, ⟨t, above', right⟩, keyed, clash⟩ := clash
  exact .inr (.inr (.clash path (placed.meets s t above above') left right keyed clash))

/-- Where a field that is asked of a position is not there, this is at fault. -/
theorem Placed.missesField {key : String} {child : Selection}
    (own : Form.filed.Gathered (Form.filed.Under (AskedOf schema here written) key) child)
    (fields : here ≠ .leaf) (missing : here.offer? schema child.name = none) (path : Path) :
    Fault schema start top (.unsupportedField child.name here.typeName path) := by
  obtain ⟨v, ⟨⟨s, above, asked⟩, -⟩, head⟩ := own.origin
  rw [(of_head head).1] at missing ⊢
  exact .inl (.intro path (placed.leads above) asked fields missing)

section Arguments

variable {key : String} {child : Selection} {offer : Offer}
  (own : Form.filed.Gathered (Form.filed.Under (AskedOf schema here written) key) child)
  (offered : here.offer? schema child.name = some offer) (read : offer.isFixed = false)
  (path : Path)

include own offered read

theorem Placed.declaredFilter_faults : FailsOnly (Fault schema start top)
    (child.declaredFilter offer.declared offer.allowed path) := by
  obtain ⟨v, ⟨⟨s, above, asked⟩, -⟩, head⟩ := own.origin
  obtain ⟨name, -, -, same, -⟩ := of_head head
  rw [same]
  exact Selection.declaredFilter_faults (placed.leads above) asked (name ▸ offered) read path

theorem Placed.withoutArguments_faults (none : offer.allowed = [])
    (undeclared : offer.declared = []) :
    FailsOnly (Fault schema start top) (child.withoutArguments path) := by
  obtain ⟨v, ⟨⟨s, above, asked⟩, -⟩, head⟩ := own.origin
  obtain ⟨name, same, -⟩ := of_head head
  rw [same]
  exact Selection.withoutArguments_faults (placed.leads above) asked (name ▸ offered) read path
    none undeclared

end Arguments

/-! ### Fragments -/

omit placed in
/-- A fragment that is reached: it stands in a selection, or in a fragment that applies. -/
def Awaits (schema : Schema) (here : Context) (written : Selection → Prop)
    (entry : String × Selection) : Prop :=
  ∃ s inner, written s ∧ Opens schema here s inner ∧ entry ∈ inner.fragmentList

omit placed in
/-- Fragments are accepted only if they apply, and refused only if nothing is known of them. -/
def Admits (schema : Schema) (start : Context) (top : Selection) (here : Context)
    (written : Selection → Prop) (accept : String → Except BindError Bool) : Prop :=
  ∀ entry, Awaits schema here written entry →
    Yields (fun applies => applies = true → here.Applies schema entry.1)
      (Fault schema start top) (accept entry.1)

variable {accept : String → Except BindError Bool}
  (admits : Admits schema start top here written accept) (path : Path)

include admits

theorem spliceQueue_gathered {target : Selection} {queue : List (String × Selection)}
    (children : Form.filed.GatheredUnder (AskedOf schema here written) target.children)
    (queued : ∀ entry ∈ queue, Awaits schema here written entry) :
    Yields (fun resolved =>
        Form.filed.GatheredUnder (AskedOf schema here written) resolved.children)
      (Fault schema start top) (spliceQueue accept path target queue) := by
  fun_induction spliceQueue accept path target queue with
  | case1 target => exact .ok children
  | case2 target condition fragment rest ihTaken ihDropped =>
    obtain ⟨awaits, others⟩ := List.forall_mem_cons.mp queued
    refine (admits _ awaits).bind fun applies _ sound => ?_
    obtain ⟨s, inner, known, opens, filed⟩ := awaits
    split
    · rename_i isTrue
      have own := opens.snoc filed (sound isTrue)
      have inside : Form.filed.GatheredUnder (AskedOf schema here written) fragment.children :=
        placed.gathered_of_opens known own
      have spliced := Form.splice_gathered fragment.withoutFragments children inside
      refine (spliced.mapError fun key clash => placed.clash clash _).bind fun next _ gathered =>
        ihTaken next gathered ?_
      exact List.forall_mem_append.mpr ⟨others, fun entry inside => ⟨s, _, known, own, inside⟩⟩
    · exact ihDropped children others

/-- Once fragments are resolved, children are gathered from what is asked under their keys. -/
theorem resolveFragments_gathered {s : Selection} (gathered : Form.filed.Gathered written s) :
    Yields (fun resolved =>
        Form.filed.GatheredUnder (AskedOf schema here written) resolved.children)
      (Fault schema start top) (resolveFragments accept path s) := by
  refine spliceQueue_gathered placed admits path (fun entry present => ?_) fun entry filed => ?_
  · refine (gathered.children entry present).mono ?_
    rintro child ⟨⟨t, known, -, inside⟩, key⟩ -
    exact ⟨⟨t, known, .child inside⟩, key⟩
  · obtain ⟨members, present, listed⟩ := mem_fragmentList.mp filed
    obtain ⟨t, known, -, filed⟩ := gathered.fragments _ present _ listed
    exact ⟨t, t, known, .self t, filed⟩

end Placed

/-- Where there is no type that conditions could be held against, every fragment applies. -/
theorem always_admits {start here : Context} {top : Selection} {written : Selection → Prop}
    (all : ∀ condition, here.Applies schema condition) :
    Admits schema start top here written always :=
  fun entry _ => .ok fun _ => all entry.1

theorem applies_record {type : ObjectType} (known : Keyed.hasKey schema.types type.name = true)
    {condition : String} :
    (Context.record type).Applies schema condition ↔ schema.Suits type.name condition := by
  show schema.isAssignable condition type.name = .ok true ↔ _
  rw [Schema.isAssignable_eq known]
  split
  · exact ⟨fun same => Except.ok.inj same, fun suits => congrArg _ suits⟩
  · rename_i unknown
    refine iff_of_false (fun same => nomatch same) fun suits => unknown ?_
    rcases Bool.or_eq_true_iff.mp suits with same | face
    · rw [beq_iff_eq] at same
      exact Bool.or_eq_true_iff.mpr (.inl (same ▸ known))
    · refine Bool.or_eq_true_iff.mpr (.inr ?_)
      rw [Keyed.hasKey]
      cases found : Keyed.get? schema.interfaces condition with
      | none => simp [found] at face
      | some face => rfl

theorem appliesTo_admits {start : Context} {top : Selection} {type : ObjectType}
    {written : Selection → Prop} (known : Keyed.hasKey schema.types type.name = true)
    (placed : Placed schema start top (.record type) written) (path : Path) :
    Admits schema start top (.record type) written (appliesTo schema type.name path) := by
  rintro ⟨condition, fragment⟩ ⟨s, inner, above, opens, filed⟩
  unfold appliesTo
  dsimp only
  cases assignable : schema.isAssignable condition type.name with
  | ok applies => exact .ok fun isTrue => assignable.trans (congrArg _ isTrue)
  | error e =>
    rw [Schema.isAssignable_eq known] at assignable
    split at assignable
    · cases assignable
    · rename_i undeclared
      exact .error (.inr (.inr (.condition path ⟨Bool.eq_false_iff.mpr undeclared, type, s, inner,
        fragment, placed.leads above, opens.mono fun _ => (applies_record known).mp, filed⟩)))

end Selection

end GraphRead
