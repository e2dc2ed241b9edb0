import GraphRead.Proofs.Binding.Single
import GraphRead.Proofs.Metadata.Page
import GraphRead.Proofs.Page.Execute
/-!
Executing a document with and without what is asked about pages (`executeDocument_metadata`).

Two documents that are the same apart from page infos, counts and the cursors of edges are compared
through the document that asks for none of these. Whatever is asked, the same records are shown.
But a row that is only fetched to tell whether there is another page is completed like any other, so
it can make an execution fail that would answer without it.
-/

namespace GraphRead

open PerParent Success

section Responses

variable {schema : Schema} {store : Memory} {infos : Bool}

theorem isSome_response (reads : List RootRead) :
    (response store.connector reads).toOption.isSome ↔
      ∀ read ∈ reads, (rootAnswer store.connector read).toOption.isSome := by
  rw [response, toOption_bind, ← isSome_mapM, ← toOption_mapM]
  cases (reads.mapM (rootAnswer store.connector)).toOption <;> simp

/-- Root fields are answered exactly if they are without metadata, and all spare rows from there on
can be shown. -/
theorem isSome_response_iff (infos : Bool) {reads : List RootRead}
    (bound : ∀ read ∈ reads, read.visit.Bound schema) :
    (response store.connector reads).toOption.isSome ↔
      (response store.connector (reads.map (RootRead.plain infos))).toOption.isSome ∧
        ∀ read ∈ reads, ∀ visit, read.visit.Leads store visit → visit.ShowsSpare infos store := by
  rw [isSome_response, isSome_response, List.forall_mem_map, ← forall₂_and]
  refine forall₂_congr fun read asked => ?_
  have splits := Visit.isSome_answer_iff (bound read asked) fun target reached link linked =>
    ((bound read asked).binds target reached link linked).splits store infos
  rw [← Visit.answer_root, Option.isSome_map, ← RootRead.visit_plain, ← Visit.answer_root,
    Option.isSome_map] at splits
  exact splits

/-- Root fields with different keys answer under these keys. -/
theorem response_eq_some {reads : List RootRead} (distinct : (reads.map RootRead.key).Nodup)
    {found : Response} (done : response store.connector reads = .ok found) :
    ∃ answers, (reads.mapM fun read => (rootAnswer store.connector read).toOption) = some answers ∧
      found = (reads.map RootRead.key).zip answers := by
  obtain ⟨answers, made, same⟩ := Fallible.bind_eq_ok.mp done
  cases Fallible.pure_eq_ok.mp same
  have each := toOption_mapM (rootAnswer store.connector) reads
  rw [made] at each
  have long := congrArg List.length (mapM_eq_some.mp each.symm)
  rw [List.length_map, List.length_map] at long
  refine ⟨answers, each.symm, Keyed.ofList_of_nodup ?_⟩
  rwa [List.map_fst_zip (by rw [List.length_map, long])]

/-- Root fields that are answered with and without metadata are answered the same. -/
theorem plain_response_eq {reads : List RootRead} (distinct : (reads.map RootRead.key).Nodup)
    (bound : ∀ read ∈ reads, read.visit.Bound schema)
    (untied : infos = false → ∀ read ∈ reads, ∀ visit,
      (read.visit.plain infos).Leads store visit → visit.Untied store) {found found' : Response}
    (done : response store.connector reads = .ok found)
    (done' : response store.connector (reads.map (RootRead.plain infos)) = .ok found') :
    found.plain = found'.plain := by
  have keys : (reads.map (RootRead.plain infos)).map RootRead.key = reads.map RootRead.key := by
    rw [List.map_map]
    rfl
  obtain ⟨answers, made, rfl⟩ := response_eq_some distinct done
  obtain ⟨answers', made', rfl⟩ := response_eq_some (keys.symm ▸ distinct) done'
  rw [mapM_map] at made'
  have same : answers.map Answer.plain = answers'.map Answer.plain := by
    refine map_eq_map_of_mapM made made' fun read asked answer answer' yields yields' => ?_
    have own := congrArg (Option.map Answer.plain) yields
    have own' := congrArg (Option.map Answer.plain) yields'
    rw [Visit.answer_root, Option.map_some] at own
    rw [Visit.answer_root, Option.map_some, RootRead.visit_plain] at own'
    exact Visit.answer_eq (bound read asked) (fun target reached link linked =>
      ((bound read asked).binds target reached link linked).agrees store infos) own own'
      fun drops => untied drops read asked
  have plain (answers : List (Answer Record)) :
      Response.plain ((reads.map RootRead.key).zip answers) =
        (reads.map RootRead.key).zip (answers.map Answer.plain) := by
    rw [List.zip_map_right]
    rfl
  rw [keys, plain, plain, same]

end Responses

/-- How a document is answered under some limits, without a timeout. -/
def executeUntimed (schema : Schema) (store : Memory) (limit : Nat) (size : Option Nat)
    (latency : Nat) (document : Document) : Except ExecutionError Response :=
  (executeDocument schema store.connector ⟨limit, size, none⟩ ⟨latency, none⟩ document).outcome

section Documents

variable {schema : Schema} {document : Document} {root : Selection} {reads : List RootRead}
  (store : Memory) (limit : Nat) (size : Option Nat) (latency : Nat) {infos : Bool}
  (built : Selection.ofDocument document = .ok root) (bound : root.rootReads schema = .ok reads)

include built bound

/-- The outcome of a document is the response of the resolution per parent. -/
theorem executeUntimed_toOption :
    (executeUntimed schema store limit size latency document).toOption =
      (response store.connector reads).toOption := by
  rw [executeUntimed, executeDocument, built]
  dsimp only
  rw [executeSelection, bound]
  dsimp only
  rw [observe_outcome, toOption_mapError,
    resolveReads_of_document store size Completion.inOrder_complete built bound]

/-- A document is answered exactly if it is without metadata, and all spare rows can be shown. -/
theorem isOk_executeUntimed (infos : Bool) :
    (executeUntimed schema store limit size latency document).isOk ↔
    (response store.connector (reads.map (RootRead.plain infos))).toOption.isSome ∧
      ∀ read ∈ reads, ∀ visit, read.visit.Leads store visit → visit.ShowsSpare infos store := by
  rw [← isSome_toOption, executeUntimed_toOption store limit size latency built bound]
  exact isSome_response_iff infos fun read => Selection.visit_of_rootReads bound

/-- A document that is answered shows what it shows without metadata. -/
theorem exists_plain_response (untied : infos = false → ∀ read ∈ reads, ∀ visit,
      (read.visit.plain infos).Leads store visit → visit.Untied store) {found : Response}
    (done : executeUntimed schema store limit size latency document = .ok found) :
    ∃ plain, response store.connector (reads.map (RootRead.plain infos)) = .ok plain ∧
      found.plain = plain.plain := by
  have visits : ∀ read ∈ reads, read.visit.Bound schema :=
    fun read => Selection.visit_of_rootReads bound
  have own := executeUntimed_toOption store limit size latency built bound
  rw [done] at own
  obtain ⟨plain, done'⟩ := Option.isSome_iff_exists.mp
    ((isSome_response_iff infos visits).mp (Option.isSome_of_eq_some own.symm)).1
  have distinct := Selection.rootReads_keys_nodup (Selection.ofDocument_wellKeyed built) bound
  exact ⟨plain, toOption_eq_some.mp done', plain_response_eq distinct visits untied
    (toOption_eq_some.mp own.symm) (toOption_eq_some.mp done')⟩

end Documents

/-- **What is asked about a page does not change the page, but it can fail.** Two documents are
executed without a timeout that ask for the same, apart from page infos, counts and the cursors of
edges, or apart from counts, cursors and what is asked of page infos if these are kept.

* Where both are answered they show the same records, in the same order and with the same answers
  below them, if no rows tie where a page is taken from the end of its list.
* Where one is answered, the other one is exactly if all spare rows that it fetches can be shown:
  the rows that only tell whether there is another page are completed before they are dropped.
* Counts, the cursors of edges and what is asked of a page info make no difference to that. -/
theorem executeDocument_metadata {schema : Schema} {document document' : Document}
    {root root' : Selection} {reads reads' : List RootRead}
    (built : Selection.ofDocument document = .ok root) (bound : root.rootReads schema = .ok reads)
    (built' : Selection.ofDocument document' = .ok root')
    (bound' : root'.rootReads schema = .ok reads') {infos : Bool}
    (alike : reads.map (RootRead.plain infos) = reads'.map (RootRead.plain infos))
    (store : Memory) (limit : Nat) (size : Option Nat) (latency : Nat) :
    ((infos = false → ∀ read ∈ reads, ∀ visit, (read.visit.plain infos).Leads store visit →
        visit.Untied store) →
      ∀ found found', executeUntimed schema store limit size latency document = .ok found →
        executeUntimed schema store limit size latency document' = .ok found' →
          found.plain = found'.plain) ∧
    ((executeUntimed schema store limit size latency document').isOk →
      ((executeUntimed schema store limit size latency document).isOk ↔
        ∀ read ∈ reads, ∀ visit, read.visit.Leads store visit → visit.ShowsSpare infos store)) ∧
    (infos = true → ((executeUntimed schema store limit size latency document).isOk ↔
      (executeUntimed schema store limit size latency document').isOk)) := by
  have ok := isOk_executeUntimed store limit size latency built bound infos
  have ok' := isOk_executeUntimed store limit size latency built' bound' infos
  rw [← alike] at ok'
  refine ⟨fun untied found found' done done' => ?_, fun answered => ?_, fun kept => ?_⟩
  · have untied' : infos = false → ∀ read ∈ reads', ∀ visit,
        (read.visit.plain infos).Leads store visit → visit.Untied store := by
      intro drops read asked visit leads
      have other : read.plain infos ∈ reads.map (RootRead.plain infos) :=
        alike ▸ List.mem_map_of_mem asked
      obtain ⟨own, asked, same⟩ := List.mem_map.mp other
      rw [← RootRead.visit_plain, ← same, RootRead.visit_plain] at leads
      exact untied drops own asked visit leads
    obtain ⟨plain, answered, same⟩ :=
      exists_plain_response store limit size latency built bound untied done
    obtain ⟨plain', answered', same'⟩ :=
      exists_plain_response store limit size latency built' bound' untied' done'
    rw [← alike, answered] at answered'
    cases answered'
    exact same.trans same'.symm
  · rw [ok, and_iff_right (ok'.mp answered).1]
  · subst kept
    have shown : ∀ visit : Visit, visit.ShowsSpare true store := by
      intro visit target _ row spare
      rw [visit.spare_true] at spare
      cases spare
    rw [ok, ok']
    exact and_congr_right fun _ => iff_of_true (fun _ _ visit _ => shown visit)
      fun _ _ visit _ => shown visit

/-! ### A letter that nobody sent -/

namespace Letters

def sender : Association := ⟨"sender", .manyToOne, "Person", "sender_id", "id", false, none, []⟩

def letter : ObjectType := ⟨"Letter", "letters", "id", .always, [("sender", .link sender)]⟩

def person : ObjectType := ⟨"Person", "people", "id", .always, []⟩

/-- Every letter has to have a sender. -/
def office : Schema where
  types := [("Letter", letter), ("Person", person)]
  interfaces := []
  roots := [("letters", ⟨"letters", "Letter", .connection [⟨"id", .ascending⟩], []⟩)]

/-- There is no person 9, who is to have sent the second letter. -/
def store : Memory where
  tables := [("letters", [[("id", .int 1), ("sender_id", .int 1)],
      [("id", .int 2), ("sender_id", .int 9)]]),
    ("people", [[("id", .int 1)]])]
  failing := []

/-- Asks for the sender of the first letter, and for more about the page. -/
def first (more : List (Item Value)) : Document where
  root := ⟨⟨rootName, none, []⟩, [.field ⟨"letters", none, [("first", .int 1)]⟩
    (.field ⟨"edges", none, []⟩ [.field ⟨"node", none, []⟩
      [.field ⟨"sender", none, []⟩ [.field ⟨"id", none, []⟩ []]]] :: more)]⟩
  fragments := []

/-- Asks whether there is another page. -/
def nextPage : List (Item Value) :=
  [.field ⟨"pageInfo", none, []⟩ [.field ⟨"hasNextPage", none, []⟩ []]]

/-- A selection without arguments. -/
def plainly (name : String) (children : List (String × Selection)) : Selection :=
  ⟨name, none, [], children, []⟩

def senderSelection : Selection := plainly "sender" [("id", plainly "id" [])]

def nodeSelection : Selection := plainly "node" [("sender", senderSelection)]

def edgesSelection : Selection := plainly "edges" [("node", nodeSelection)]

def field (more : List (String × Selection)) : Selection :=
  ⟨"letters", none, [("first", .int 1)], ("edges", edgesSelection) :: more, []⟩

def root (more : List (String × Selection)) : Selection :=
  ⟨rootName, none, [], [("letters", field more)], []⟩

def nextPageSelection : List (String × Selection) :=
  [("pageInfo", plainly "pageInfo" [("hasNextPage", plainly "hasNextPage" [])])]

def senderLink : BoundLink := ⟨sender, .always, [.field ⟨person, [("id", .id)]⟩]⟩

def node : BoundField := ⟨letter, [("sender", .link senderLink)]⟩

def read (info : Option PageInfoRequest) : RootRead :=
  ⟨"letters", .always, [.connection ⟨letter, [⟨"id", .ascending⟩], .forward 1 none,
    some ⟨letter, some node, false⟩, info, false, false⟩], .many⟩

theorem built : Selection.ofDocument (first []) = .ok (root []) ∧
    Selection.ofDocument (first nextPage) = .ok (root nextPageSelection) := by
  constructor <;> cbv

theorem bindField_person (path : Path) :
    Selection.bindField office person path senderSelection = .ok ⟨person, [("id", .id)]⟩ := by
  rw [Selection.bindField_eq]
  cbv

theorem bindLink_sender (path : Path) :
    Selection.bindLink office sender path senderSelection = .ok senderLink := by
  have targets : Selection.bindTargets office .field "Person" path senderSelection =
      .ok [.field ⟨person, [("id", .id)]⟩] := by
    rw [Selection.bindTargets_single rfl, Selection.bindTarget, bindField_person]
    rfl
  rw [Selection.bindLink, if_neg (by decide)]
  show (do
    let filter ← senderSelection.declaredFilter [] [] path
    let targets ← Selection.bindTargets office .field "Person" path senderSelection
    return (⟨sender, filter, targets⟩ : BoundLink)) = _
  rw [targets]
  cbv

theorem bindEdge_letter (path : Path) :
    Selection.bindEdge office letter path edgesSelection = .ok ⟨letter, some node, false⟩ := by
  have bound (path : Path) : Selection.bindField office letter path nodeSelection = .ok node := by
    have resolved : Selection.resolveFragments (Selection.appliesTo office letter.name path) path
        nodeSelection = .ok nodeSelection := by cbv
    rw [Selection.bindField_eq, resolved]
    show (do
      let items ← Selection.bindItems office letter path [("sender", senderSelection)]
      return (⟨letter, items⟩ : BoundField)) = _
    rw [Selection.bindItems_link office rfl, bindLink_sender, Selection.bindItems]
    rfl
  have parts : Selection.edgeParts letter.name path edgesSelection.children =
      .ok ⟨some nodeSelection, false⟩ := by cbv
  have resolved : Selection.resolveFragments Selection.always path edgesSelection =
      .ok edgesSelection := by cbv
  rw [Selection.bindEdge_eq, resolved]
  show (do
    let parts ← Selection.edgeParts letter.name path edgesSelection.children
    let node ← parts.node.mapM fun node => Selection.bindField office letter (path.add "node") node
    return (⟨letter, node, parts.cursor⟩ : BoundEdge)) = _
  rw [parts]
  show (do
    let node ← (some nodeSelection).mapM fun node =>
      Selection.bindField office letter (path.add "node") node
    return (⟨letter, node, false⟩ : BoundEdge)) = _
  rw [Option.mapM_some, bound]
  rfl

/-- The letters are bound whatever is asked about their page. -/
theorem bound {more : List (String × Selection)} {info : Option PageInfoRequest}
    (resolved : ∀ path, Selection.resolveFragments Selection.always path (field more) =
      .ok (field more))
    (parts : ∀ path, Selection.connectionParts letter.name path (field more).children =
      .ok ⟨some edgesSelection, info, false⟩) :
    (root more).rootReads office = .ok [read info] := by
  have target : Selection.bindConnection office [⟨"id", .ascending⟩] false letter
      ["Query", "letters"] (field more) = .ok ⟨letter, [⟨"id", .ascending⟩], .forward 1 none,
        some ⟨letter, some node, false⟩, info, false, false⟩ := by
    have page : (field more).boundPagination (Order.withTiebreaker [⟨"id", .ascending⟩]
        letter.primaryKey) false ["Query", "letters"] = .ok (.forward 1 none) := by cbv
    rw [Selection.bindConnection_eq, page, resolved]
    show (do
      let parts ← Selection.connectionParts letter.name _ (field more).children
      let edges ← parts.edges.mapM fun edges => Selection.bindEdge office letter _ edges
      return (⟨letter, _, _, edges, parts.pageInfo, parts.count, false⟩ : BoundConnection)) = _
    rw [parts]
    show (do
      let edges ← (some edgesSelection).mapM fun edges => Selection.bindEdge office letter _ edges
      return (⟨letter, _, _, edges, info, false, false⟩ : BoundConnection)) = _
    rw [Option.mapM_some, bindEdge_letter]
    rfl
  have filtered : (field more).declaredFilter [] Selection.paginationArguments
      ["Query", "letters"] = .ok .always := by cbv
  rw [root, Selection.rootReads_single, Selection.bindRoot_list rfl rfl rfl filtered target]
  rfl

theorem bound_plain : (root []).rootReads office = .ok [read none] :=
  bound (fun _ => by cbv) fun _ => by cbv

theorem bound_nextPage : (root nextPageSelection).rootReads office =
    .ok [read (some ⟨true, false, false, false⟩)] :=
  bound (fun _ => by cbv) fun _ => by cbv

theorem outcome_eq {document : Document} {more : List (String × Selection)}
    {info : Option PageInfoRequest} (built : Selection.ofDocument document = .ok (root more))
    (bound : (root more).rootReads office = .ok [read info]) :
    executeUntimed office store 8 none 0 document =
      (resolveReads store.connector none .inOrder [read info]).outcome.mapError .ofResolve := by
  rw [executeUntimed, executeDocument, built]
  dsimp only
  rw [executeSelection, bound]
  exact observe_outcome store.connector 8 none 0 _

/-- The page of the first letter is answered, but not if it is asked whether there is another page:
the second letter, which is not on the page, has no sender. -/
theorem nextPage_fails : (executeUntimed office store 8 none 0 (first [])).isOk ∧
    executeUntimed office store 8 none 0 (first nextPage) =
      .error (.resolve (.missingRecord ["Query", "letters", "sender"] "9")) := by
  rw [outcome_eq built.1 bound_plain, outcome_eq built.2 bound_nextPage]
  constructor <;> cbv

/-- Asking for the next page fetches a spare letter that cannot be shown. -/
theorem spare_letter :
    [read (some ⟨true, false, false, false⟩)].map (RootRead.plain false) =
        [read none].map (RootRead.plain false) ∧
      ¬ ∀ asked ∈ [read (some ⟨true, false, false, false⟩)], ∀ visit,
        asked.visit.Leads store visit → visit.ShowsSpare false store := by
  have alike : [read (some ⟨true, false, false, false⟩)].map (RootRead.plain false) =
      [read none].map (RootRead.plain false) := rfl
  have answered : (executeUntimed office store 8 none 0 (first [])).isOk := by
    rw [outcome_eq built.1 bound_plain]
    cbv
  have failed : (executeUntimed office store 8 none 0 (first nextPage)).isOk = false := by
    rw [outcome_eq built.2 bound_nextPage]
    cbv
  have metadata := executeDocument_metadata built.2 bound_nextPage built.1 bound_plain alike store 8
    none 0
  refine ⟨alike, fun shown => ?_⟩
  have done := (metadata.2.1 answered).mpr shown
  rw [failed] at done
  cases done

end Letters

end GraphRead
