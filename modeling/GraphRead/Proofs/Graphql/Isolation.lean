import GraphRead.Proofs.Graphql.Readable
import GraphRead.Proofs.Success
import Mathlib.Data.List.Find
/-!
The picked operation and the rest of its document.

A document can hold several operations, and fragments for all of them. What is left of it for one
operation are the fragments that the operation spreads, itself or through fragments that it spreads
(`Reached`). The other operations are never looked at. The other fragments are looked at once: all
fragments are converted, with the variables that the picked operation declares. So a fragment of
another operation plays a role exactly if it holds a variable without a value or a number that is
not finite: then the conversion fails (`Feeds.convert_fails`). If no such fragment is left out, the
operation alone is converted like the whole document, and the same query is built from it
(`convert_isolated`).
-/

namespace GraphRead.Graphql

open Fallible

/-- The definition of a fragment; of several with one name the last counts. -/
def definition? (source : Source) (name : String) : Option FragmentDefinition :=
  (fragments source).reverse.find? fun f => f.name = name

/-- The fragments that an operation spreads, itself or through other fragments. -/
inductive Reached (source : Source) (o : Operation) : String → Prop where
  | spread {name : String} (here : name ∈ Item.spreadsOf o.items) : Reached source o name
  | through {via name : String} {f : FragmentDefinition} (reached : Reached source o via)
      (found : definition? source via = some f) (here : name ∈ Item.spreadsOf f.items) :
      Reached source o name

/-- A document from which the other operations are left out, and with them some of the fragments
that the operation does not reach. -/
structure Isolates (source : Source) (o : Operation) (rest : Source) : Prop where
  operation : operations rest = [o]
  fragments : ∃ keep : FragmentDefinition → Bool,
    fragments rest = (fragments source).filter keep ∧
      ∀ f ∈ fragments source, Reached source o f.name → keep f

namespace Isolates

variable {source rest : Source} {o : Operation} (isolated : Isolates source o rest)

include isolated

/-- Every fragment that is left is a fragment of the document. -/
theorem mem_source {f : FragmentDefinition} (left : f ∈ Graphql.fragments rest) :
    f ∈ Graphql.fragments source := by
  obtain ⟨keep, kept, -⟩ := isolated.fragments
  rw [kept] at left
  exact (List.mem_filter.mp left).1

/-- A fragment that is reached keeps its definition. -/
theorem definition?_eq {name : String} (reached : Reached source o name) :
    definition? rest name = definition? source name := by
  obtain ⟨keep, kept, all⟩ := isolated.fragments
  rw [definition?, definition?, kept, ← List.filter_reverse, List.find?_filter]
  refine List.find?_congr fun f present => ?_
  rw [Bool.eq_iff_iff, decide_eq_true_iff, and_iff_right_iff_imp]
  intro named
  refine all f (List.mem_reverse.mp present) ?_
  rw [of_decide_eq_true named]
  exact reached

/-- The operation is picked by its name from what is left. -/
theorem picked {name : String} (picked : pickOperation source (some name) = .ok o) :
    pickOperation rest (some name) = .ok o := by
  unfold pickOperation at picked ⊢
  dsimp only at picked ⊢
  rw [isolated.operation]
  split at picked
  · rename_i found
    cases picked
    rw [List.find?_cons_of_pos (List.find?_some found)]
  · cases picked

end Isolates

/-! ### What a conversion gives -/

section Convert

variable {source : Source} {wanted : Option String} {o : Operation}
  {supplied : List (String × Json)}

/-- A document is converted by converting the picked operation and all fragments. -/
theorem convert_eq_ok (picked : pickOperation source wanted = .ok o) {document : Document} :
    convert source wanted supplied = .ok document ↔ o.kind = .query ∧ ∃ items pairs,
      Variables.itemList ⟨supplied, o.declared⟩ [rootName] o.items = .ok items ∧
      (fragments source).mapM (Variables.fragment ⟨supplied, o.declared⟩ [rootName]) = .ok pairs ∧
      document = ⟨⟨⟨rootName, none, []⟩, items⟩, Keyed.ofList pairs⟩ := by
  have queried : requireQuery o = .ok o ↔ o.kind = .query := by
    unfold requireQuery
    cases o.kind with
    | query => exact iff_of_true rfl rfl
    | mutation => exact iff_of_false nofun nofun
    | subscription => exact iff_of_false nofun nofun
  have only {o' : Operation} (done : requireQuery o = .ok o') : o = o' := by
    unfold requireQuery at done
    split at done
    · exact Except.ok.inj done
    · cases done
    · cases done
  unfold convert
  rw [picked]
  constructor
  · intro done
    obtain ⟨o', isQuery, done⟩ := bind_eq_ok.mp done
    have isQuery : requireQuery o = .ok o' := mapError_eq_ok.mp isQuery
    obtain rfl := only isQuery
    obtain ⟨items, isItems, done⟩ := bind_eq_ok.mp done
    obtain ⟨pairs, isPairs, done⟩ := bind_eq_ok.mp done
    exact ⟨queried.mp isQuery, items, pairs, isItems, isPairs, (pure_eq_ok.mp done).symm⟩
  · rintro ⟨isQuery, items, pairs, isItems, isPairs, rfl⟩
    have isQuery : Except.bind (.ok o) requireQuery = .ok o := queried.mpr isQuery
    exact bind_eq_ok.mpr ⟨o, mapError_eq_ok.mpr isQuery, bind_eq_ok.mpr ⟨items, isItems,
      bind_eq_ok.mpr ⟨pairs, isPairs, rfl⟩⟩⟩

/-- A conversion succeeds exactly if the picked operation reads, and all arguments in it and in
every fragment of the document are readable. -/
theorem exists_convert (picked : pickOperation source wanted = .ok o) :
    (∃ document, convert source wanted supplied = .ok document) ↔ o.kind = .query ∧
      Variables.ReadsItems ⟨supplied, o.declared⟩ o.items ∧
      ∀ f ∈ fragments source, Variables.ReadsItems ⟨supplied, o.declared⟩ f.items := by
  rw [← Variables.itemList_ok _ [rootName]]
  constructor
  · rintro ⟨document, done⟩
    obtain ⟨isQuery, items, pairs, isItems, isPairs, -⟩ := (convert_eq_ok picked).mp done
    exact ⟨isQuery, ⟨items, isItems⟩, fun f present =>
      (Variables.fragment_ok _ _ f).mp (Success.forall_of_mapM_ok isPairs f present)⟩
  · rintro ⟨isQuery, ⟨items, isItems⟩, each⟩
    obtain ⟨pairs, isPairs⟩ := Success.exists_mapM_ok fun f present =>
      (Variables.fragment_ok _ [rootName] f).mpr (each f present)
    exact ⟨_, (convert_eq_ok picked).mpr ⟨isQuery, items, pairs, isItems, isPairs, rfl⟩⟩

theorem name_of_fragment {given : Variables} {path : Path} {f : FragmentDefinition}
    {pair : String × Fragment} (done : given.fragment path f = .ok pair) :
    pair.1 = f.name ∧ Item.spreadsOf pair.2.items = Item.spreadsOf f.items := by
  obtain ⟨items, isItems, done⟩ := bind_eq_ok.mp done
  cases pure_eq_ok.mp done
  exact ⟨rfl, Variables.spreadsOf_itemList given _ _ _ isItems⟩

/-- Under a name stands the last fragment of the name, converted. -/
theorem get?_fragments {given : Variables} {path : Path} {pairs : List (String × Fragment)}
    (done : (fragments source).mapM (given.fragment path) = .ok pairs) (name : String) :
    Keyed.get? (Keyed.ofList pairs) name =
      (definition? source name).bind fun f => (given.fragment path f).toOption.map Prod.snd := by
  rw [Keyed.get?_ofList, definition?]
  generalize fragments source = written at done
  induction written generalizing pairs with
  | nil =>
    cases pure_eq_ok.mp done
    rfl
  | cons f rest ih =>
    rw [List.mapM_cons] at done
    obtain ⟨pair, here, done⟩ := bind_eq_ok.mp done
    obtain ⟨more, later, done⟩ := bind_eq_ok.mp done
    cases pure_eq_ok.mp done
    rw [List.reverse_cons, List.reverse_cons, List.find?_append, List.find?_append]
    have others := ih later
    cases found : rest.reverse.find? fun f => f.name = name with
    | some f' =>
      rw [found] at others
      cases found' : more.reverse.find? fun pair => pair.1 = name with
      | some pair' =>
        rw [found'] at others
        exact others
      | none =>
        obtain ⟨pair', present⟩ := Success.forall_of_mapM_ok later f'
          (List.mem_reverse.mp (List.mem_of_find?_eq_some found))
        rw [found', Option.bind_some, present] at others
        cases others
    | none =>
      rw [found] at others
      rw [Option.map_eq_none_iff.mp others, Option.none_or, Option.none_or, List.find?_cons,
        List.find?_cons, (name_of_fragment here).1]
      cases decide (f.name = name) with
      | true =>
        show some pair.2 = (given.fragment path f).toOption.map Prod.snd
        rw [here]
        rfl
      | false => rfl

end Convert

/-- **What the rest of a document does to an operation.** Let an operation be picked by its name,
and let the others be left out, with any of the fragments that it does not reach. The whole document
is converted exactly if what is left of it is, and in every fragment that is left out all arguments
are readable with the variables of the picked operation. If both are converted, they ask the same
of the query type, they have the same definition for every fragment that is reached, and the same
query is built from them. -/
theorem convert_isolated {source rest : Source} {name : String} {o : Operation}
    (picked : pickOperation source (some name) = .ok o) (isolated : Isolates source o rest)
    (supplied : List (String × Json)) :
    ((∃ document, convert source (some name) supplied = .ok document) ↔
      (∃ document, convert rest (some name) supplied = .ok document) ∧
        ∀ f ∈ fragments source, f ∉ fragments rest →
          Variables.ReadsItems ⟨supplied, o.declared⟩ f.items) ∧
    ∀ whole alone, convert source (some name) supplied = .ok whole →
      convert rest (some name) supplied = .ok alone →
      whole.root = alone.root ∧
      (∀ fragment, Reached source o fragment →
        Keyed.get? whole.fragments fragment = Keyed.get? alone.fragments fragment) ∧
      Selection.ofDocument whole = Selection.ofDocument alone := by
  constructor
  · rw [exists_convert picked, exists_convert (isolated.picked picked)]
    constructor
    · rintro ⟨isQuery, own, all⟩
      exact ⟨⟨isQuery, own, fun f left => all f (isolated.mem_source left)⟩,
        fun f present _ => all f present⟩
    · rintro ⟨⟨isQuery, own, left⟩, leftOut⟩
      refine ⟨isQuery, own, fun f present => ?_⟩
      by_cases known : f ∈ fragments rest
      · exact left f known
      · exact leftOut f present known
  · intro whole alone isWhole isAlone
    obtain ⟨-, items, pairs, isItems, isPairs, rfl⟩ := (convert_eq_ok picked).mp isWhole
    obtain ⟨-, items', pairs', isItems', isPairs', rfl⟩ :=
      (convert_eq_ok (isolated.picked picked)).mp isAlone
    obtain rfl : items = items' := Except.ok.inj (isItems.symm.trans isItems')
    have same (fragment : String) (reached : Reached source o fragment) :
        Keyed.get? (Keyed.ofList pairs) fragment = Keyed.get? (Keyed.ofList pairs') fragment := by
      rw [get?_fragments isPairs, get?_fragments isPairs', isolated.definition?_eq reached]
    have agree : AgreeOn (Reached source o) (Keyed.ofList pairs) (Keyed.ofList pairs') := by
      refine ⟨same, fun fragment f reached found => ?_, Keyed.nodup_ofList _, Keyed.nodup_ofList _⟩
      rw [get?_fragments isPairs] at found
      obtain ⟨definition, defined, found⟩ := Option.bind_eq_some_iff.mp found
      obtain ⟨pair, converted, rfl⟩ := Option.map_eq_some_iff.mp found
      intro other here
      rw [(name_of_fragment (Success.toOption_eq_some.mp converted)).2] at here
      exact .through reached defined here
    refine ⟨rfl, same, Selection.ofDocument_congr rfl agree fun fragment here => ?_⟩
    rw [Variables.spreadsOf_itemList _ _ _ _ isItems] at here
    exact .spread here

/-! ### A fragment of another operation -/

namespace Feeds

/-- Asks for a page of users, with items for every user. -/
def users (node : Items) : Items :=
  [.field ⟨"users", none, [("first", .int 1)]⟩ [.field ⟨"edges", none, []⟩
    [.field ⟨"node", none, []⟩ node]]]

/-- Asks for the key of a user. -/
def keys : Operation := ⟨.query, ⟨1, 1⟩, some "A", [], users [.field ⟨"id", none, []⟩ []]⟩

/-- Asks for the name of a user, cut to a length that has to be given. -/
def names : Operation :=
  ⟨.query, ⟨1, 52⟩, some "B", [⟨"n", .nonNull (.named "Int"), none⟩], users [.spread "Named"]⟩

/-- The fragment of the second operation, with its variable. -/
def named : FragmentDefinition :=
  ⟨"Named", "User", [.field ⟨"name", none, [("length", .var "n")]⟩ []]⟩

def both : Source := [.operation keys, .operation names, .fragment named]

def alone : Source := [.operation keys]

theorem reached_nothing {name : String} : ¬ Reached both keys name := by
  intro reached
  induction reached with
  | spread here => exact absurd here List.not_mem_nil
  | through _ _ _ none => exact none

theorem isolates : Isolates both keys alone where
  operation := rfl
  fragments := ⟨fun _ => false, rfl, fun _ _ reached => absurd reached reached_nothing⟩

/-- Both operations are converted if the variable of the second one is supplied. -/
theorem convert_isolated_supplied : pickOperation both (some "A") = .ok keys ∧
    Isolates both keys alone ∧
    ∃ whole, convert both (some "A") [("n", .number (.integer 3))] = .ok whole := by
  have picked : pickOperation both (some "A") = .ok keys := rfl
  refine ⟨picked, isolates, (convert_isolated picked isolates _).1.mpr ⟨⟨_, rfl⟩, ?_⟩⟩
  intro f present _
  cases List.mem_singleton.mp present
  refine ⟨⟨fun entry here => ?_, trivial⟩, trivial⟩
  cases List.mem_singleton.mp here
  exact ⟨_, rfl⟩

/-- The first operation does not spread the fragment of the second one, but without the variable
of the second one it fails, while alone it is converted. -/
theorem convert_fails : pickOperation both (some "A") = .ok keys ∧
    (∀ name, ¬ Reached both keys name) ∧ Isolates both keys alone ∧
    convert both (some "A") [] =
      .error ⟨["Query", "Named", "name"], .missingVariable "n"⟩ ∧
    ∃ document, convert alone (some "A") [] = .ok document :=
  ⟨rfl, fun _ => reached_nothing, isolates, by cbv, _, rfl⟩

end Feeds

end GraphRead.Graphql
