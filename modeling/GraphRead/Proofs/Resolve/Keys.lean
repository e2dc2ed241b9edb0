import GraphRead.Proofs.Resolve.Descent
import Mathlib.Data.List.Induction
/-!
The keys of parents, and the batches in which they are looked for.

The keys of some records are the values of a column in the order in which they are first seen, each
of them once and in the spelling that is seen first (`Value.firstSeen_distinct`). A read for many
keys is split into batches, which share the keys out among them: a row that a batch accepts has one
of the keys of the batch, and since no two keys are the same, no other batch accepts it as well
(`ReadArguments.countP_batched`).
-/

namespace GraphRead

open PerParent

/-! ### Batches -/

theorem Row.hasOneOf_flatten {row : Row} {column : String} {cut : List (List Value)} :
    row.HasOneOf column cut.flatten ↔ ∃ chunk ∈ cut, row.HasOneOf column chunk := by
  constructor
  · rintro ⟨v, listed, valued, here⟩
    obtain ⟨chunk, known, among⟩ := List.mem_flatten.mp listed
    exact ⟨chunk, known, v, among, valued, here⟩
  · rintro ⟨chunk, known, v, among, valued, here⟩
    exact ⟨v, List.mem_flatten.mpr ⟨chunk, known, among⟩, valued, here⟩

/-- Only the chunk of a key passes a test that tells the key. -/
theorem countP_of_chunk {cut : List (List Value)} {k : Value} {test : List Value → Bool}
    (differ : cut.flatten.Pairwise Value.Differ) (present : k ∈ cut.flatten)
    (here : ∀ chunk ∈ cut, k ∈ chunk → test chunk = true)
    (others : ∀ chunk ∈ cut, (∀ v ∈ chunk, v.Differ k) → test chunk = false) :
    cut.countP test = 1 := by
  have counted : cut.countP test =
      (cut.flatMap fun chunk => if test chunk then [()] else []).length := by
    clear differ present here others
    induction cut with
    | nil => rfl
    | cons chunk rest ih =>
      rw [List.countP_cons, List.flatMap_cons, List.length_append, ih, Nat.add_comm]
      cases test chunk <;> rfl
  have marked : (cut.flatMap fun chunk => if test chunk then [()] else []) = [()] := by
    refine flatMap_of_chunk differ present (fun chunk known among => ?_) fun chunk known apart => ?_
    · exact if_pos (here chunk known among)
    · exact if_neg (Bool.eq_false_iff.mp (others chunk known apart))
  rw [counted, marked]
  rfl

/-- What a filter is narrowed to comes last among its conditions. -/
theorem Filter.getLast?_conjuncts_pair (first : Filter) (column : String) (vs : List Value) :
    (allOf [first, among column vs]).conjuncts.getLast? = some (among column vs) := by
  have parts : [first, among column vs].flatMap conjuncts =
      first.conjuncts ++ [among column vs] := rfl
  rw [allOf, parts]
  match first.conjuncts with
  | [] => rfl
  | [_] => rfl
  | f :: g :: rest =>
    show (f :: g :: rest ++ [among column vs]).getLast? = _
    exact List.getLast?_concat

namespace ReadArguments

/-- The values of which a batch asks its column to have one. -/
def wanted (batch : ReadArguments) : List Value :=
  match batch.filter.conjuncts.getLast? with
  | some (.scalar _ (.oneOf vs)) => vs
  | _ => []

@[simp] theorem wanted_narrowed (arguments : ReadArguments) (column : String)
    (vs : List Value) : wanted { arguments with
      filter := .allOf [arguments.filter, .among column vs] } = vs := by
  rw [wanted, Filter.getLast?_conjuncts_pair]
  rfl

/-- What holds of the batches in which the rows are read that have one of some values in a
column. -/
structure Batched (arguments : ReadArguments) (column : String) (values : List Value) (size : Nat)
    (batches : List ReadArguments) : Prop where
  /-- A batch asks for some of the values, and apart from that for what is asked anyway. -/
  narrowed : ∀ batch ∈ batches, batch.filter = .allOf [arguments.filter, .among column batch.wanted]
  order : ∀ batch ∈ batches, batch.order = arguments.order
  take : ∀ batch ∈ batches, batch.take = arguments.take
  /-- It asks for at least one value, and for no more than the size allows. -/
  sized : ∀ batch ∈ batches, batch.wanted ≠ [] ∧ batch.wanted.length ≤ max 1 size
  /-- Together the batches ask for all values, in their order. -/
  whole : batches.flatMap wanted = values
  /-- A row is accepted by a batch exactly if it passes the filter and has one of the values. -/
  accepted : ∀ row : Row, (∃ batch ∈ batches, batch.filter.matches row) ↔
    arguments.filter.matches row ∧ row.HasOneOf column values
  /-- If no two values are the same, then it is accepted by no other batch. -/
  once : values.Pairwise Value.Differ → ∀ row : Row, arguments.filter.matches row →
    row.HasOneOf column values → (batches.countP fun batch => batch.filter.matches row) = 1

variable (arguments : ReadArguments) (column : String) (values : List Value) (size : Nat)

theorem accepts_batched (row : Row) :
    (∃ batch ∈ arguments.batched column values size, batch.filter.matches row) ↔
      arguments.filter.matches row ∧ row.HasOneOf column values := by
  have shared : row.HasOneOf column values ↔
      ∃ chunk ∈ chunks size values, row.HasOneOf column chunk := by
    rw [← Row.hasOneOf_flatten, flatten_chunks]
  rw [shared]
  constructor
  · rintro ⟨batch, cut, passes⟩
    obtain ⟨chunk, known, rfl⟩ := List.mem_map.mp cut
    obtain ⟨own, has⟩ := Filter.matches_narrowed_iff.mp passes
    exact ⟨own, chunk, known, has⟩
  · rintro ⟨own, chunk, known, has⟩
    exact ⟨_, List.mem_map_of_mem known, Filter.matches_narrowed_iff.mpr ⟨own, has⟩⟩

/-- A row with one of some values, no two of which are the same, is accepted by one batch. -/
theorem countP_batched (differ : values.Pairwise Value.Differ) {row : Row}
    (passes : arguments.filter.matches row) (has : row.HasOneOf column values) :
    ((arguments.batched column values size).countP fun batch => batch.filter.matches row) = 1 := by
  obtain ⟨k, listed, valued, here⟩ := has
  rw [batched, List.countP_map]
  rw [← flatten_chunks size values] at differ listed
  refine countP_of_chunk differ listed (fun chunk _ among => ?_) fun chunk _ apart => ?_
  · exact Filter.matches_narrowed_iff.mpr ⟨passes, k, among, valued, here⟩
  · refine Bool.eq_false_iff.mpr fun found => ?_
    obtain ⟨-, v, known, -, same⟩ := Filter.matches_narrowed_iff.mp found
    rw [Plan.has_differ (apart v known) same] at here
    cases here

theorem batched_batched :
    Batched arguments column values size (arguments.batched column values size) where
  narrowed := fun batch cut => by
    obtain ⟨chunk, -, rfl⟩ := List.mem_map.mp cut
    rw [wanted_narrowed]
  order := fun batch cut => by
    obtain ⟨chunk, -, rfl⟩ := List.mem_map.mp cut
    rfl
  take := fun batch cut => by
    obtain ⟨chunk, -, rfl⟩ := List.mem_map.mp cut
    rfl
  sized := fun batch cut => by
    obtain ⟨chunk, known, rfl⟩ := List.mem_map.mp cut
    rw [wanted_narrowed]
    exact ⟨ne_nil_of_mem_chunks known, length_le_of_mem_chunks known⟩
  whole := by
    rw [batched, List.flatMap_map]
    simp only [wanted_narrowed]
    rw [List.flatMap_id', flatten_chunks]
  accepted := accepts_batched arguments column values size
  once := fun differ row passes has => countP_batched arguments column values size differ passes has

end ReadArguments

/-! ### Distinct values -/

namespace Value

/-- What holds of the values of a list in the order in which they are first seen. -/
structure FirstSeen (vs keys : List Value) : Prop where
  /-- No two of them are the same. -/
  differ : keys.Pairwise Differ
  /-- Every value of the list is the same as one of them. -/
  complete : ∀ v ∈ vs, ∃ k ∈ keys, k == v
  /-- Each is found in the list as it is, before any other spelling of it. -/
  first : ∀ k ∈ keys, vs.find? (fun v => v == k) = some k
  /-- One that comes earlier is found earlier. -/
  ordered : keys.Pairwise fun k l =>
    vs.findIdx (fun v => v == k) < vs.findIdx fun v => v == l

theorem distinct_concat (vs : List Value) (v : Value) : distinct (vs ++ [v]) =
    if (distinct vs).any fun k => k == v then distinct vs else distinct vs ++ [v] := by
  rw [distinct, groups_eq, List.foldl_append, List.foldl_cons, List.foldl_nil, map_fst_regroup,
    distinct, groups_eq, List.any_map]
  rfl

theorem findIdx_lt_of_find? {vs : List Value} {test : Value → Bool} {v : Value}
    (found : vs.find? test = some v) : vs.findIdx test < vs.length :=
  List.findIdx_lt_length_of_exists ⟨v, List.mem_of_find?_eq_some found, List.find?_some found⟩

namespace FirstSeen

variable {vs keys : List Value} {v : Value} (seen : FirstSeen vs keys)

include seen

theorem find?_concat {k : Value} (known : k ∈ keys) :
    (vs ++ [v]).find? (fun w => w == k) = some k := by
  rw [List.find?_append, seen.first k known, Option.some_or]

theorem findIdx_concat {k : Value} (known : k ∈ keys) :
    (vs ++ [v]).findIdx (fun w => w == k) = vs.findIdx fun w => w == k := by
  rw [List.findIdx_append, if_pos (findIdx_lt_of_find? (seen.first k known))]

theorem ordered_concat : keys.Pairwise fun k l =>
    (vs ++ [v]).findIdx (fun w => w == k) < (vs ++ [v]).findIdx fun w => w == l :=
  seen.ordered.imp_of_mem fun known known' before => by
    rwa [seen.findIdx_concat known, seen.findIdx_concat known']

/-- A value that has been seen before is not seen first. -/
theorem again (known : ∃ k ∈ keys, k == v) : FirstSeen (vs ++ [v]) keys where
  differ := seen.differ
  complete := fun w present => by
    rcases List.mem_append.mp present with before | last
    · exact seen.complete w before
    · exact List.mem_singleton.mp last ▸ known
  first := fun _ known => seen.find?_concat known
  ordered := seen.ordered_concat

/-- A value that differs from all before is seen first, and last of these. -/
theorem concat (fresh : ∀ k ∈ keys, k.Differ v) : FirstSeen (vs ++ [v]) (keys ++ [v]) := by
  have unseen : ∀ w ∈ vs, ¬(w == v) = true := by
    intro w present same
    obtain ⟨k, known, other⟩ := seen.complete w present
    exact Bool.eq_false_iff.mp (fresh k known) (BEq.trans other same)
  have last : (vs ++ [v]).findIdx (fun w => w == v) = vs.length := by
    have none : ¬vs.findIdx (fun w => w == v) < vs.length := fun within =>
      unseen _ (List.getElem_mem within) (List.findIdx_getElem (w := within))
    rw [List.findIdx_append, if_neg none, List.findIdx_cons, BEq.rfl, cond_true, Nat.zero_add]
  constructor
  case differ =>
    exact List.pairwise_append.mpr ⟨seen.differ, List.pairwise_singleton _ _,
      fun k known w here => List.mem_singleton.mp here ▸ fresh k known⟩
  case complete =>
    intro w present
    rcases List.mem_append.mp present with before | here
    · obtain ⟨k, known, same⟩ := seen.complete w before
      exact ⟨k, List.mem_append_left _ known, same⟩
    · exact ⟨w, List.mem_append_right _ here, BEq.rfl⟩
  case first =>
    intro k known
    rcases List.mem_append.mp known with before | here
    · exact seen.find?_concat before
    · cases List.mem_singleton.mp here
      rw [List.find?_append, List.find?_eq_none.mpr unseen, Option.none_or]
      exact List.find?_cons_of_pos (p := fun w => w == v) BEq.rfl
  case ordered =>
    refine List.pairwise_append.mpr ⟨seen.ordered_concat, List.pairwise_singleton _ _,
      fun k known w here => ?_⟩
    cases List.mem_singleton.mp here
    rw [last, seen.findIdx_concat known]
    exact findIdx_lt_of_find? (seen.first k known)

end FirstSeen

/-- The distinct values of a list are those that are seen first. The induction takes the list from
its end, as its values are looked at one after the other. -/
theorem firstSeen_distinct (vs : List Value) : FirstSeen vs (distinct vs) := by
  induction vs using List.reverseRecOn with
  | nil => exact ⟨.nil, nofun, nofun, .nil⟩
  | append_singleton vs v seen =>
    rw [distinct_concat]
    split
    · rename_i known
      exact seen.again (List.any_eq_true.mp known)
    · rename_i missing
      exact seen.concat fun k known =>
        Bool.eq_false_iff.mpr fun same => missing (List.any_eq_true.mpr ⟨k, known, same⟩)

end Value

/-! ### Keys -/

/-- The keys of records that have the column are its distinct values, without null. -/
theorem joinKeys_eq {records : List Fetched} {column : String}
    (known : ∀ r ∈ records, (r.record.get? column).isSome) :
    joinKeys records column = .ok (keysOf (records.map (joinValue column))) :=
  joinKeys_eq_ok.mpr ⟨known, rfl⟩

/-- The first record that lacks the column is to blame for missing keys. -/
theorem joinKeys_eq_error {records : List Fetched} {column : String} {r : Fetched}
    (lacks : records.find? (fun r => (r.record.get? column).isNone) = some r) :
    joinKeys records column = .error (.columnNotFound r.record.type.name column) := by
  suffices fetched : (records.mapM fun r =>
      Attribute.fetch r.record.type.name r.record.get? column) =
        .error (.columnNotFound r.record.type.name column) by
    rw [joinKeys, fetched]
    rfl
  induction records with
  | nil => cases lacks
  | cons first rest ih =>
    rw [List.mapM_cons, Attribute.fetch]
    cases found : first.record.get? column with
    | none =>
      rw [List.find?_cons_of_pos (by rw [found]; rfl)] at lacks
      cases lacks
      rfl
    | some v =>
      rw [List.find?_cons_of_neg (by rw [found]; exact Bool.false_ne_true)] at lacks
      rw [ih lacks]
      rfl

/-- Rows that join a record have one of the keys. -/
theorem Row.hasOneOf_keysOf {row : Row} {column : String} {values : List Value} {v : Value}
    (present : v ∈ values) (valued : v.isNull = false) (here : row.has column v) :
    row.HasOneOf column (keysOf values) := by
  obtain ⟨k, known, same⟩ := exists_mem_keysOf present valued
  refine ⟨k, known, valued_of_mem_keys known, ?_⟩
  rwa [← Row.has_congr column same]

/-- **Batches share out the keys among them.** A read for some values of a column is split into
batches that ask for the values in turn, each for at least one and for no more than the size allows,
under the filter, the order and the limit of the read. A row is accepted by a batch exactly if it
passes the filter and has one of the values, and by only one if no two values are the same. That is
so of the keys of records: they are the values of a column that are not null, each of them once, in
the order in which they are first seen. If a record lacks the column, there are no keys, and the
first such record is to blame. -/
theorem ReadArguments.batches_share_keys (arguments : ReadArguments) (column : String)
    (values : List Value) (size : Nat) (records : List Fetched) (joined : String) :
    Batched arguments column values size (arguments.batched column values size) ∧
    ((∀ r ∈ records, (r.record.get? joined).isSome) →
      ∃ keys, joinKeys records joined = .ok keys ∧
        Value.FirstSeen ((records.map (joinValue joined)).filter fun v => !v.isNull) keys ∧
        ∀ row : Row, arguments.filter.matches row → (∃ r ∈ records,
          (joinValue joined r).isNull = false ∧ row.has column (joinValue joined r)) →
          ((arguments.batched column keys size).countP fun batch =>
            batch.filter.matches row) = 1) ∧
    ∀ r, records.find? (fun r => (r.record.get? joined).isNone) = some r →
      joinKeys records joined = .error (.columnNotFound r.record.type.name joined) := by
  refine ⟨batched_batched arguments column values size, fun known => ?_,
    fun r lacks => joinKeys_eq_error lacks⟩
  refine ⟨_, joinKeys_eq known, Value.firstSeen_distinct _, fun row passes belongs => ?_⟩
  obtain ⟨r, present, valued, here⟩ := belongs
  exact countP_batched arguments column _ size (Value.distinct_pairwise _) passes
    (Row.hasOneOf_keysOf (List.mem_map_of_mem present) valued here)

namespace Invoices

def customerType : ObjectType := ⟨"Customer", "customers", "id", .always, []⟩

/-- A customer with a rate. -/
def customer (rate : Value) : Fetched := ⟨⟨customerType, ["rate"], [rate], none, []⟩, [], none⟩

/-- Five customers, one without a rate and two with the same, which is spelled in two ways. -/
def customers : List Fetched :=
  [.float ⟨15, 1⟩, .null, .int 2, .float ⟨150, 2⟩, .int 3].map customer

/-- A customer whose rate has not been read. -/
def stranger : Fetched := ⟨⟨customerType, ["id"], [.int 6], none, []⟩, [], none⟩

def unpaid : ReadArguments := ⟨.equals "paid" (.boolean false), [], some 10⟩

/-- An invoice of the rate that two customers have. -/
def invoice : Row := [("paid", .boolean false), ("rate", .float ⟨1500, 3⟩)]

/-- The invoice is found once, whether the rates are read two by two or, where no size is allowed,
one by one. -/
theorem batches_share_keys_rates :
    (∀ r ∈ customers, (r.record.get? "rate").isSome) ∧
    (∃ keys, joinKeys customers "rate" = .ok keys ∧
      ((unpaid.batched "rate" keys 2).countP fun batch => batch.filter.matches invoice) = 1) ∧
    [Value.float ⟨15, 1⟩, .int 2, .int 3].Pairwise Value.Differ ∧
    ((unpaid.batched "rate" [.float ⟨15, 1⟩, .int 2, .int 3] 0).countP fun batch =>
      batch.filter.matches invoice) = 1 ∧
    joinKeys (customers ++ [stranger]) "rate" = .error (.columnNotFound "Customer" "rate") := by
  have known : ∀ r ∈ customers, (r.record.get? "rate").isSome := by decide
  have differ : [Value.float ⟨15, 1⟩, .int 2, .int 3].Pairwise Value.Differ := by
    unfold Value.Differ
    decide
  obtain ⟨batched, -, missing⟩ := ReadArguments.batches_share_keys unpaid "rate"
    [.float ⟨15, 1⟩, .int 2, .int 3] 0 (customers ++ [stranger]) "rate"
  obtain ⟨-, found, -⟩ := ReadArguments.batches_share_keys unpaid "rate" [] 2 customers "rate"
  obtain ⟨keys, joined, -, once⟩ := found known
  exact ⟨known, ⟨keys, joined, once invoice (by decide) ⟨customer (.float ⟨15, 1⟩),
    List.mem_cons_self, rfl, by decide⟩⟩, differ, batched.once differ invoice (by decide)
    ⟨.float ⟨15, 1⟩, List.mem_cons_self, rfl, by decide⟩, missing stranger rfl⟩

end Invoices

end GraphRead
