import GraphRead.Binding.Root
import GraphRead.Fallible
import GraphRead.Resolve.Seek
import Mathlib.Data.List.Basic
/-!
The lists of values that filters compare with.

Combining filters keeps their lists (`lists_allOf`), and seeking adds none (`lists_seekFilter`). The
filter of the arguments of a field has the lists that are given as arguments, each of them whole
(`lists_declaredFilter`), and it is the one under which the field is read (`lists_bindRoot`,
`lists_bindLink`).
-/

namespace GraphRead

/-- The lists of a condition: the one that it asks about membership in, if it does. -/
def Condition.lists : Condition → List (List Value)
  | oneOf vs => [vs]
  | noneOf vs => [vs]
  | _ => []

namespace Filter

mutual

/-- The lists of values that a filter compares with, in order. -/
def lists : Filter → List (List Value)
  | and members => memberLists members
  | or members => memberLists members
  | not members => memberLists members
  | scalar _ condition => condition.lists
  | constant _ => []

/-- The lists of several filters. -/
def memberLists : List Filter → List (List Value)
  | [] => []
  | filter :: rest => lists filter ++ memberLists rest

end

theorem memberLists_eq (members : List Filter) : memberLists members = members.flatMap lists := by
  induction members with
  | nil => rfl
  | cons filter rest ih => rw [memberLists, List.flatMap_cons, ih]

theorem lists_conjuncts (filter : Filter) : (conjuncts filter).flatMap lists = filter.lists := by
  cases filter with
  | and members => rw [lists, memberLists_eq]; rfl
  | or members => exact List.append_nil _
  | not members => exact List.append_nil _
  | scalar column condition => exact List.append_nil _
  | constant holds => cases holds <;> rfl

/-- A conjunction has the lists of its members. -/
theorem lists_allOf (filters : List Filter) : (allOf filters).lists = filters.flatMap lists := by
  have whole : (filters.flatMap conjuncts).flatMap lists = filters.flatMap lists := by
    rw [List.flatMap_assoc]
    exact List.flatMap_congr fun filter _ => lists_conjuncts filter
  rw [← whole, allOf]
  split
  · rename_i none
    rw [none]
    rfl
  · rename_i single
    rw [single]
    exact (List.append_nil _).symm
  · rw [lists, memberLists_eq]

/-- A disjunction has the lists of its members. -/
theorem lists_anyOf (filters : List Filter) : (anyOf filters).lists = filters.flatMap lists := by
  match filters with
  | [] => rfl
  | [_] => exact (List.append_nil _).symm
  | _ :: _ :: _ => exact memberLists_eq _

theorem lists_pair (first second : Filter) :
    (allOf [first, second]).lists = first.lists ++ second.lists := by
  rw [lists_allOf, List.flatMap_cons, List.flatMap_singleton]

end Filter

/-! ### Seeking -/

theorem Side.lists_past (side : Side) (part : SortColumn) (v : Value) :
    (side.past part v).lists = [] := by
  unfold past
  split <;> rfl

/-- Comparing with the values of a cursor takes no list. -/
theorem Side.lists_alternatives (side : Side) {earlier : List Filter}
    (plain : earlier.flatMap Filter.lists = []) (order : Order) (vs : List Value) :
    (side.alternatives earlier order vs).flatMap Filter.lists = [] := by
  induction order generalizing earlier vs with
  | nil => rfl
  | cons part parts ih =>
    cases vs with
    | nil => rfl
    | cons v rest =>
      have more : (earlier ++ [Filter.equals part.column v]).flatMap Filter.lists = [] := by
        rw [List.flatMap_append, plain]
        rfl
      rw [alternatives, List.flatMap_cons, ih more, Filter.lists_allOf, List.flatMap_append, plain,
        List.flatMap_singleton, side.lists_past]
      rfl

theorem lists_tied (order : Order) (values : List Value) :
    (tied order values).flatMap Filter.lists = [] := by
  refine List.flatMap_eq_nil_iff.mpr fun filter present => ?_
  unfold tied at present
  obtain ⟨place, within, rfl⟩ := List.mem_iff_getElem.mp present
  rw [List.getElem_zipWith]
  rfl

/-- A page that starts beyond a cursor is found without lists. -/
theorem lists_seekFilter (order : Order) (cursor : Cursor) (side : Side) (type : Option String) :
    (seekFilter order cursor side type).lists = [] := by
  rw [seekFilter, Filter.lists_anyOf, List.flatMap_append,
    side.lists_alternatives (rfl : ([] : List Filter).flatMap Filter.lists = [])]
  split
  · rw [List.flatMap_singleton, Filter.lists_allOf, lists_tied]
    rfl
  · rfl

/-! ### Arguments -/

/-- The list that an argument gives to a declared filter, if this asks about membership. -/
def DeclaredFilter.givenList? (filter : DeclaredFilter) (argument : Value) : Option (List Value) :=
  if filter.condition = .oneOf then argument.list? else none

theorem DeclaredFilter.lists_apply {filter : DeclaredFilter} {argument : Value} {applied : Filter}
    (done : filter.apply argument = .ok applied) :
    applied.lists = (filter.givenList? argument).toList := by
  unfold apply condition? at done
  unfold givenList?
  cases asked : filter.condition with
  | oneOf =>
    rw [asked] at done
    cases given : argument.list? with
    | none => rw [given] at done; cases done
    | some values => rw [given] at done; cases done; rfl
  | isNull =>
    rw [asked] at done
    cases given : argument.boolean? with
    | none => rw [given] at done; cases done
    | some expected => rw [given] at done; cases done; rfl
  | _ =>
    rw [asked] at done
    cases done
    rfl

namespace Selection

/-- An argument makes the filter that is declared for it. -/
theorem argumentFilter_eq_ok {s : Selection} {declared : List DeclaredFilter} {path : Path}
    {argument : String} {value : Value} {made : Filter} :
    s.argumentFilter declared path argument value = .ok made ↔
      ∃ own, DeclaredFilter.find? declared argument = some own ∧ own.apply value = .ok made := by
  unfold argumentFilter
  cases DeclaredFilter.find? declared argument with
  | none => simp
  | some own => simp [Fallible.mapError_eq_ok]

/-- The lists that the arguments of a field give to its declared filters, without the arguments that
are no filters. -/
def givenLists (s : Selection) (declared : List DeclaredFilter) (allowed : List String) :
    List (List Value) :=
  (s.arguments.filter fun entry => !allowed.contains entry.1).flatMap fun (argument, value) =>
    ((DeclaredFilter.find? declared argument).bind fun filter => filter.givenList? value).toList

/-- The filter of the arguments of a field has the lists that they give, each of them whole. -/
theorem lists_declaredFilter {s : Selection} {declared : List DeclaredFilter}
    {allowed : List String} {path : Path} {filter : Filter}
    (done : s.declaredFilter declared allowed path = .ok filter) :
    filter.lists = s.givenLists declared allowed := by
  obtain ⟨filters, made, same⟩ := Fallible.bind_eq_ok.mp done
  cases Fallible.pure_eq_ok.mp same
  clear done same
  rw [Filter.lists_allOf, givenLists]
  generalize (s.arguments.filter fun entry => !allowed.contains entry.1) = restricting at made
  induction restricting generalizing filters with
  | nil =>
    cases made
    rfl
  | cons entry rest ih =>
    obtain ⟨argument, value⟩ := entry
    rw [List.mapM_cons] at made
    obtain ⟨first, here, made⟩ := Fallible.bind_eq_ok.mp made
    obtain ⟨more, later, made⟩ := Fallible.bind_eq_ok.mp made
    cases Fallible.pure_eq_ok.mp made
    have own : first.lists = ((DeclaredFilter.find? declared argument).bind
        fun filter => filter.givenList? value).toList := by
      obtain ⟨own, found, applied⟩ := argumentFilter_eq_ok.mp here
      rw [found, DeclaredFilter.lists_apply applied]
      rfl
    rw [List.flatMap_cons, List.flatMap_cons, own, ih more later]

/-- An association is read under the filter of its arguments. -/
theorem lists_bindLink {schema : Schema} {association : Association} {path : Path} {s : Selection}
    {l : BoundLink} (done : bindLink schema association path s = .ok l) :
    l.filter.lists = s.givenLists association.filters
      (if association.isMany then paginationArguments else []) := by
  rw [bindLink] at done
  split at done
  · rename_i many
    rw [if_pos many]
    split at done
    · cases done
    · obtain ⟨filter, given, done⟩ := Fallible.bind_eq_ok.mp done
      obtain ⟨targets, _, done⟩ := Fallible.bind_eq_ok.mp done
      cases Fallible.pure_eq_ok.mp done
      exact lists_declaredFilter given
  · rename_i one
    rw [if_neg one]
    obtain ⟨filter, given, done⟩ := Fallible.bind_eq_ok.mp done
    obtain ⟨targets, _, done⟩ := Fallible.bind_eq_ok.mp done
    cases Fallible.pure_eq_ok.mp done
    exact lists_declaredFilter given

/-- A root field is read under the filter of its arguments. -/
theorem lists_bindRoot {schema : Schema} {key : String} {s : Selection} {read : RootRead}
    (done : bindRoot schema key s = .ok read) :
    ∃ root allowed, Keyed.get? schema.roots s.name = some root ∧
      read.filter.lists = s.givenLists root.filters allowed := by
  unfold bindRoot at done
  dsimp only at done
  split at done
  · cases done
  · rename_i root known
    split at done
    · obtain ⟨filter, given, done⟩ := Fallible.bind_eq_ok.mp done
      obtain ⟨targets, _, done⟩ := Fallible.bind_eq_ok.mp done
      cases Fallible.pure_eq_ok.mp done
      exact ⟨root, _, known, lists_declaredFilter given⟩
    · obtain ⟨id, _, done⟩ := Fallible.bind_eq_ok.mp done
      obtain ⟨filter, given, done⟩ := Fallible.bind_eq_ok.mp done
      obtain ⟨targets, _, done⟩ := Fallible.bind_eq_ok.mp done
      cases Fallible.pure_eq_ok.mp done
      exact ⟨root, _, known, lists_declaredFilter given⟩

end Selection

end GraphRead
