import GraphRead.Proofs.Account.Bind
import GraphRead.Proofs.Binding.Blame
import GraphRead.Proofs.Binding.Single
import GraphRead.Proofs.Binding.Sound
import GraphRead.Proofs.Document.Tidy
import Mathlib
/-!
What becomes of all that a query asks.

If a query is bound, then whatever is reached in it has a part of the bound query that stands for
it, and every such part was bound from a selection that holds it (`Reaches.exists_part`,
`Stands.carries`). So nothing that is asked is lost, wherever fields and arguments are looked at.
They are not looked at everywhere: the fields that stand in every schema have their arguments
ignored, and what has no fields of its own has its selection ignored (`Overlooked`). A query that is
bound is answered for all that it asks exactly if nothing is asked there, and a query that asks for
what there is not is told so (`rootReads_accounts`).
-/

namespace GraphRead

open Fallible

variable {schema : Schema}

namespace Selection

variable {root : Selection} {reads : List RootRead} {here : Context} {s : Selection}

/-- Nothing that a query asks is ignored: whatever is reached has a part, every field that is asked
of it is one that its context has, and every argument is accounted for in all its parts. -/
def Honoured (schema : Schema) (root : Selection) (reads : List RootRead) : Prop :=
  ∀ here s, Reaches schema root here s → (∃ part, Stands schema root reads here s part) ∧
    ∀ part, Stands schema root reads here s part → ∀ child, Asked schema here s child →
      ∃ offer, here.offer? schema child.name = some offer ∧
        ∀ argument ∈ child.arguments, part.Accounts child.outputKey offer argument

/-- Something is asked where nobody looks: of a field without fields of its own, or in an argument
of a field that stands in every schema. -/
def Overlooked (schema : Schema) (root : Selection) : Prop :=
  ∃ here s child, Reaches schema root here s ∧ Asked schema here s child ∧
    (here = .leaf ∨
      ∃ next, here.offer? schema child.name = some (.fixed next) ∧ child.arguments ≠ [])

/-- Something is asked that there is not, and not where nobody looks: a field that its context does
not have, or an argument that is neither allowed nor a declared filter. -/
def Misfits (schema : Schema) (root : Selection) : Prop :=
  ∃ here s child, Reaches schema root here s ∧ Asked schema here s child ∧ here ≠ .leaf ∧
    ∀ offer, here.offer? schema child.name = some offer → offer.isFixed = false ∧
      ∃ argument ∈ child.arguments, argument.1 ∉ offer.allowed ∧
        DeclaredFilter.find? offer.declared argument.1 = none

/-- A part that stands for a selection was bound from one that holds it. -/
theorem Stands.carries {part : Part} (stands : Stands schema root reads here s part)
    (tidy : root.Tidy) (done : root.rootReads schema = .ok reads) :
    part.Carries schema here s := by
  induction stands with
  | root => exact .query tidy.repeats done
  | @step here next s child offer part inner above asked offered enters leads ih =>
    have fields : here ≠ .leaf := by
      rintro rfl
      cases offered
    obtain ⟨own, known, -, below⟩ := Part.answers_of_carries ih fields asked
    cases Option.some.inj (offered.symm.trans known)
    exact (below next enters).2 inner leads

/-- Whatever is reached in a query that is bound has a part that stands for it. -/
theorem Reaches.exists_part (reached : Reaches schema root here s) (tidy : root.Tidy)
    (done : root.rootReads schema = .ok reads) :
    ∃ part, Stands schema root reads here s part := by
  induction reached with
  | root => exact ⟨.reads reads, .root⟩
  | @step here next s child offer reached asked offered enters ih =>
    obtain ⟨part, stands⟩ := ih
    have fields : here ≠ .leaf := by
      rintro rfl
      cases offered
    obtain ⟨own, known, -, below⟩ :=
      Part.answers_of_carries (stands.carries tidy done) fields asked
    cases Option.some.inj (offered.symm.trans known)
    obtain ⟨inner, leads⟩ := (below next enters).1
    exact ⟨inner, .step stands asked offered enters leads⟩

end Selection

/-- No argument is accounted for on a field that stands in every schema. -/
theorem Part.not_accounts_fixed {part : Part} {key : String} {next : Context}
    {argument : String × Value} : ¬part.Accounts key (.fixed next) argument := by
  rintro (allowed | ⟨own, -, -, found, -⟩)
  · cases allowed
  · cases found

namespace Selection

variable {root : Selection} {reads : List RootRead}

/-- A query that is bound answers for all that it asks exactly if it asks nothing where nobody
looks. -/
theorem honoured_iff (tidy : root.Tidy) (done : root.rootReads schema = .ok reads) :
    Honoured schema root reads ↔ ¬Overlooked schema root := by
  constructor
  · rintro honoured ⟨here, s, child, reached, asked, unread⟩
    obtain ⟨⟨part, stands⟩, answers⟩ := honoured here s reached
    obtain ⟨offer, offered, accounts⟩ := answers part stands child asked
    rcases unread with rfl | ⟨next, fixed, arguments⟩
    · cases offered
    · cases Option.some.inj (offered.symm.trans fixed)
      obtain ⟨argument, rest, same⟩ := List.exists_cons_of_ne_nil arguments
      exact Part.not_accounts_fixed (accounts argument (same ▸ List.mem_cons_self))
  · intro read here s reached
    refine ⟨reached.exists_part tidy done, fun part stands child asked => ?_⟩
    have fields : here ≠ .leaf := fun leaf => read ⟨here, s, child, reached, asked, .inl leaf⟩
    obtain ⟨offer, offered, accounts, -⟩ :=
      Part.answers_of_carries (stands.carries tidy done) fields asked
    refine ⟨offer, offered, ?_⟩
    cases offer with
    | fixed next =>
      have none : child.arguments = [] := by
        by_contra arguments
        exact read ⟨here, s, child, reached, asked, .inr ⟨next, offered, arguments⟩⟩
      rw [none]
      exact List.forall_mem_nil _
    | root field => exact accounts rfl
    | association a => exact accounts rfl
    | plain => exact accounts rfl

/-- A query that asks for what there is not is not bound. -/
theorem not_ok_of_misfits (tidy : root.Tidy) (misfits : Misfits schema root) :
    root.rootReads schema ≠ .ok reads := by
  intro done
  obtain ⟨here, s, child, reached, asked, fields, misfit⟩ := misfits
  obtain ⟨part, stands⟩ := reached.exists_part tidy done
  obtain ⟨offer, offered, accounts, -⟩ :=
    Part.answers_of_carries (stands.carries tidy done) fields asked
  obtain ⟨plain, argument, present, other, unknown⟩ := misfit offer offered
  rcases accounts plain argument present with allowed | ⟨own, -, -, found, -⟩
  · exact other allowed
  · rw [unknown] at found
    cases found

/-- **What becomes of all that a query asks.** If a query is bound, then whatever is reached has a
part of what is bound, and wherever fields and arguments are looked at, every field that is asked is
one that its context has, and every argument is allowed or restricts what is read. So nothing that
the query asks is ignored, exactly if it asks nothing where nobody looks. A query that asks for what
there is not is refused, and it is the query that is at fault. It is told of a field that its
context does not have, as unsupported, or of an argument that is neither allowed nor a declared
filter, as unknown, unless something else is wrong with it of which it is told first. -/
theorem rootReads_accounts {declared : Declarations}
    (built : Schema.build declared = .ok schema) (tidy : root.Tidy) :
    (∀ reads, root.rootReads schema = .ok reads →
      (∀ here s, Reaches schema root here s → ∃ part, Stands schema root reads here s part) ∧
      (∀ here s part child, Stands schema root reads here s part → Asked schema here s child →
        here ≠ .leaf → ∃ offer, here.offer? schema child.name = some offer ∧
          (offer.isFixed = false → ∀ argument ∈ child.arguments,
            part.Accounts child.outputKey offer argument)) ∧
      (Honoured schema root reads ↔ ¬Overlooked schema root)) ∧
    (Misfits schema root → ∃ e, root.rootReads schema = .error e ∧ e.isUserError ∧
      (MissesField schema .query root e ∨ MissesArgument schema .query root e ∨
        OtherFault schema .query root e)) := by
  refine ⟨fun reads done => ⟨fun here s reached => reached.exists_part tidy done,
    fun here s part child stands asked fields => ?_, honoured_iff tidy done⟩, fun misfits => ?_⟩
  · obtain ⟨offer, offered, accounts, -⟩ :=
      Part.answers_of_carries (stands.carries tidy done) fields asked
    exact ⟨offer, offered, accounts⟩
  · cases done : root.rootReads schema with
    | error e =>
      exact ⟨e, rfl, isUserError_of_rootReads built done, fault_of_rootReads built tidy done⟩
    | ok reads => exact absurd done (not_ok_of_misfits tidy misfits)

end Selection

/-! ### Articles with a status -/

namespace Magazine

def title : Attribute := ⟨"title", .string, .column "title"⟩

def article : ObjectType := ⟨"Article", "articles", "id", .always, [("title", .scalar title)]⟩

/-- A list of articles, which can be restricted to those of a status. -/
def articles : RootField :=
  ⟨"articles", "Article", .connection [⟨"title", .ascending⟩], [⟨"status", "status", .eq⟩]⟩

def declarations : Declarations := ⟨[article], [], [articles]⟩

def magazine : Schema := ⟨[("Article", article)], [], [("articles", articles)]⟩

theorem built : Schema.build declarations = .ok magazine := by cbv

/-- The first article with its title, given the arguments of the list and of its edges, and what is
asked of the title. -/
def query (ofList ofEdges : List (String × Value)) (ofTitle : List (Item Value)) : Document where
  root := ⟨⟨rootName, none, []⟩, [.field ⟨"articles", none, ("first", .int 1) :: ofList⟩
    [.field ⟨"edges", none, ofEdges⟩ [.field ⟨"node", none, []⟩
      [.field ⟨"title", none, []⟩ ofTitle]]]]⟩
  fragments := []

def titleAsked (children : List (String × Selection)) : Selection :=
  ⟨"title", none, [], children, []⟩

def nodeAsked (children : List (String × Selection)) : Selection :=
  ⟨"node", none, [], [("title", titleAsked children)], []⟩

def edgesAsked (ofEdges : List (String × Value)) (children : List (String × Selection)) :
    Selection :=
  ⟨"edges", none, ofEdges, [("node", nodeAsked children)], []⟩

def listAsked (ofList ofEdges : List (String × Value)) (children : List (String × Selection)) :
    Selection :=
  ⟨"articles", none, ("first", .int 1) :: ofList, [("edges", edgesAsked ofEdges children)], []⟩

def asked (ofList ofEdges : List (String × Value)) (children : List (String × Selection)) :
    Selection :=
  ⟨rootName, none, [], [("articles", listAsked ofList ofEdges children)], []⟩

def read (filter : Filter) : RootRead :=
  ⟨"articles", filter, [.connection ⟨article, [⟨"title", .ascending⟩], .forward 1 none,
    some ⟨article, some ⟨article, [("title", .scalar title)]⟩, false⟩, none, false, false⟩], .many⟩

theorem bound_asked (ofList ofEdges : List (String × Value))
    (children : List (String × Selection)) (filter : Filter)
    (page : (listAsked ofList ofEdges children).boundPagination
      (Order.withTiebreaker [⟨"title", .ascending⟩] "id") false ["Query", "articles"] =
        .ok (.forward 1 none))
    (filtered : (listAsked ofList ofEdges children).declaredFilter articles.filters
      Selection.paginationArguments ["Query", "articles"] = .ok filter) :
    (asked ofList ofEdges children).rootReads magazine = .ok [read filter] := by
  have field (path : Path) : Selection.bindField magazine article path (nodeAsked children) =
      .ok ⟨article, [("title", .scalar title)]⟩ := by
    rw [Selection.bindField_eq]
    cbv
  have edge (path : Path) : Selection.bindEdge magazine article path (edgesAsked ofEdges children) =
      .ok ⟨article, some ⟨article, [("title", .scalar title)]⟩, false⟩ := by
    have parts : Selection.edgeParts article.name path (edgesAsked ofEdges children).children =
        .ok ⟨some (nodeAsked children), false⟩ := rfl
    rw [Selection.bindEdge_eq]
    exact bind_eq_ok.mpr ⟨_, Selection.resolveFragments_self _ _ rfl, bind_eq_ok.mpr ⟨_, parts,
      bind_eq_ok.mpr ⟨_, map_eq_ok.mpr ⟨_, field _, rfl⟩, rfl⟩⟩⟩
  have list : Selection.bindConnection magazine [⟨"title", .ascending⟩] false article
      ["Query", "articles"] (listAsked ofList ofEdges children) = .ok ⟨article,
        [⟨"title", .ascending⟩], .forward 1 none,
        some ⟨article, some ⟨article, [("title", .scalar title)]⟩, false⟩, none, false, false⟩ := by
    have parts (path : Path) : Selection.connectionParts article.name path
        (listAsked ofList ofEdges children).children =
          .ok ⟨some (edgesAsked ofEdges children), none, false⟩ := rfl
    rw [Selection.bindConnection_eq]
    exact bind_eq_ok.mpr ⟨_, page, bind_eq_ok.mpr ⟨_, Selection.resolveFragments_self _ _ rfl,
      bind_eq_ok.mpr ⟨_, parts _, bind_eq_ok.mpr ⟨_, map_eq_ok.mpr ⟨_, edge _, rfl⟩, rfl⟩⟩⟩⟩
  rw [asked, Selection.rootReads_single, Selection.bindRoot_list rfl rfl rfl filtered list]
  rfl

theorem tidy {ofList ofEdges : List (String × Value)} {ofTitle : List (Item Value)}
    {children : List (String × Selection)}
    (written : Selection.ofDocument (query ofList ofEdges ofTitle) =
      .ok (asked ofList ofEdges children)) : (asked ofList ofEdges children).Tidy :=
  Selection.ofDocument_tidy written

def onlyOpen : String × Value := ("status", .string "open")

def length : Item Value := .field ⟨"length", none, []⟩ []

/-- A status that is asked of the list restricts what is read. -/
theorem rootReads_accounts_status :
    Selection.ofDocument (query [onlyOpen] [] []) = .ok (asked [onlyOpen] [] []) ∧
      (asked [onlyOpen] [] []).rootReads magazine =
        .ok [read (.scalar "status" (.eq (.string "open")))] ∧
      (Part.reads [read (.scalar "status" (.eq (.string "open")))]).Accounts "articles"
        (.root articles) onlyOpen := by
  have written : Selection.ofDocument (query [onlyOpen] [] []) = .ok (asked [onlyOpen] [] []) := by
    cbv
  have bound := bound_asked [onlyOpen] [] [] (.scalar "status" (.eq (.string "open"))) rfl
    (by cbv)
  refine ⟨written, bound, ?_⟩
  obtain ⟨-, accounts, -⟩ := (Selection.rootReads_accounts built (tidy written)).1 _ bound
  obtain ⟨offer, offered, each⟩ :=
    accounts .query _ _ _ .root (.child List.mem_cons_self) (by simp)
  cases offered
  exact each rfl onlyOpen (List.mem_cons_of_mem _ List.mem_cons_self)

-- Articles of a colour are refused, for no filter is declared for it.
example : (asked [("colour", .string "red")] [] []).rootReads magazine =
    .error (.unknownArgument "colour" "articles" ["Query", "articles"]) := by
  cbv

/-- A status that is asked of the edges restricts nothing, and what is asked of a title is not
looked at, but the query is bound. -/
theorem rootReads_overlooks_status :
    Schema.build declarations = .ok magazine ∧
      Selection.ofDocument (query [] [onlyOpen] [length]) =
        .ok (asked [] [onlyOpen] [("length", .named "length")]) ∧
      (asked [] [onlyOpen] [("length", .named "length")]).rootReads magazine =
        .ok [read .always] ∧
      ¬Selection.Honoured magazine (asked [] [onlyOpen] [("length", .named "length")])
        [read .always] := by
  have written : Selection.ofDocument (query [] [onlyOpen] [length]) =
      .ok (asked [] [onlyOpen] [("length", .named "length")]) := by cbv
  have bound := bound_asked [] [onlyOpen] [("length", .named "length")] .always rfl (by cbv)
  refine ⟨built, written, bound, fun honoured => ?_⟩
  have behind : magazine.coveredTypes "Article" = .ok [article] := rfl
  have reached : Selection.Reaches magazine (asked [] [onlyOpen] [("length", .named "length")])
      (.list article) (listAsked [] [onlyOpen] [("length", .named "length")]) :=
    .step .root (.child List.mem_cons_self) rfl (.list rfl behind List.mem_cons_self)
  refine (Selection.honoured_iff (tidy written) bound).mp honoured ⟨_, _, _, reached,
    .child List.mem_cons_self, .inr ⟨.edge article, rfl, List.cons_ne_nil _ _⟩⟩

end Magazine

end GraphRead
