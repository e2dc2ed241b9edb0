import GraphRead.Proofs.Document.Origin
import GraphRead.Proofs.Document.WellFormed
/-!
A document that is refused has the fault that it is refused for.

The fields that have been filed so far are gathered from the fields of the selection set around them
(`Form.written`), so those that cannot be merged disagree. A fragment that is not available is being
expanded, and leads to every spread that is met meanwhile (`Document.Expanding`), so one that is
spread then leads back to itself (`Selection.fill_faulty`).
-/

namespace GraphRead

open Fallible

namespace Selection

/-- Fields as they are written in documents. -/
def Form.written : Form WrittenField where
  head := WrittenField.head
  asks f g := g ∈ Item.fields f.items
  files _ _ _ := True

theorem Form.Clash.disagree {key : String} {f g : WrittenField}
    (clash : Form.written.Clash key f g) : WrittenField.Disagree key f g := by
  induction clash with
  | here same differ => exact .here same differ
  | inside left right same _ ih => exact .inside left right same ih

/-- The argument that is reported has occurred before. -/
theorem count_of_repeatedArgument? {seen : List String} {arguments : List (String × Value)}
    {argument : String} (found : repeatedArgument? seen arguments = some argument) :
    argument ∈ seen ∧ argument ∈ arguments.map Prod.fst ∨
      1 < (arguments.map Prod.fst).count argument := by
  induction arguments generalizing seen with
  | nil => cases found
  | cons entry rest ih =>
    obtain ⟨name, value⟩ := entry
    rw [repeatedArgument?] at found
    rw [List.map_cons, List.count_cons]
    split at found
    · rename_i known
      cases found
      exact .inl ⟨List.contains_iff_mem.mp known, List.mem_cons_self⟩
    · rcases ih found with ⟨before, later⟩ | twice
      · have here := List.count_pos_iff.mpr later
        rcases List.mem_cons.mp before with rfl | earlier
        · exact .inr (by rw [if_pos (BEq.rfl)]; omega)
        · exact .inl ⟨earlier, List.mem_cons_of_mem _ later⟩
      · exact .inr (by omega)

/-- A field is refused for an argument that it has twice. -/
theorem ofHead_failsOnly {document : Document} {head : FieldHead Value}
    (asked : document.Heads head) (path : Path) :
    FailsOnly (fun e => document.Faulty e.fault) (ofHead path head) := by
  unfold ofHead
  split
  · rename_i argument found
    refine .error (.duplicateArgument asked ?_)
    exact (count_of_repeatedArgument? found).resolve_left fun both => List.not_mem_nil both.1
  · exact .ok _

/-- A selection that is filled keeps its head. -/
theorem head_of_fill {fragments available : Keyed Fragment} {path : Path}
    {target filled : Selection} {items : List (Item Value)}
    (done : fill fragments available path target items = .ok filled) :
    filled.name = target.name ∧ filled.aliasName = target.aliasName ∧
      filled.arguments = target.arguments := by
  have own : target.headed ⟨target.name, target.aliasName, target.arguments⟩ = target := by
    cases target; rfl
  have same := fill_headed ⟨target.name, target.aliasName, target.arguments⟩ fragments available
    path target items
  rw [own, done] at same
  obtain ⟨inner, -, rfl⟩ := map_eq_ok.mp same.symm
  exact ⟨rfl, rfl, rfl⟩

end Selection

namespace Document

/-- Fragments of a document, each once. -/
structure Available (document : Document) (available : Keyed Fragment) : Prop where
  defined : ∀ name fragment, Keyed.get? available name = some fragment →
    Keyed.get? document.fragments name = some fragment
  distinct : (available.map Prod.fst).Nodup

theorem Available.all {document : Document} (distinct : (document.fragments.map Prod.fst).Nodup) :
    document.Available document.fragments := ⟨fun _ _ found => found, distinct⟩

theorem Available.erase {document : Document} {available : Keyed Fragment}
    (known : document.Available available) (name : String) :
    document.Available (Keyed.erase available name) where
  defined other inner there := by
    rw [Keyed.get?_erase known.distinct] at there
    split at there
    · cases there
    · exact known.defined other inner there
  distinct := Keyed.nodup_erase known.distinct

/-- Of the fragments of a document some are being expanded around a selection set: they are not
available, and lead to whatever is spread in it. -/
structure Expanding (document : Document) (available : Keyed Fragment) (items : List (Item Value)) :
    Prop extends document.Available available where
  leads : ∀ name, Keyed.hasKey document.fragments name = true → Keyed.get? available name = none →
    ∀ other ∈ Item.spreadsOf items, Relation.TransGen document.Spreads name other

namespace Expanding

variable {document : Document} {available : Keyed Fragment} {items others : List (Item Value)}

theorem start (distinct : (document.fragments.map Prod.fst).Nodup) :
    document.Expanding document.fragments items where
  toAvailable := .all distinct
  leads name known missing := by
    rw [Keyed.hasKey, missing] at known
    cases known

theorem mono (expanding : document.Expanding available items)
    (fewer : ∀ name ∈ Item.spreadsOf others, name ∈ Item.spreadsOf items) :
    document.Expanding available others where
  toAvailable := expanding.toAvailable
  leads name known missing other spread := expanding.leads name known missing other
    (fewer other spread)

/-- A fragment that is spread is being expanded around its own selection set too. -/
theorem erase (expanding : document.Expanding available items) {name : String}
    {fragment : Fragment} (spread : name ∈ Item.spreadsOf items)
    (found : Keyed.get? available name = some fragment) :
    document.Expanding (Keyed.erase available name) fragment.items where
  toAvailable := expanding.toAvailable.erase name
  leads other known missing inner inside := by
    have step : document.Spreads name inner := ⟨fragment, expanding.defined name _ found, inside⟩
    rw [Keyed.get?_erase expanding.distinct] at missing
    split at missing
    · rename_i same
      exact same ▸ .single step
    · exact (expanding.leads other known missing name spread).tail step

end Expanding

end Document

namespace Selection

/-- The child that is built from a field is gathered from it. -/
theorem gathered_of_fill {fragments available : Keyed Fragment} {path path' : Path}
    {head : FieldHead Value} {items whole : List (Item Value)} {leaf child : Selection}
    (isLeaf : ofHead path head = .ok leaf)
    (filled : fill fragments available path' leaf items = .ok child)
    (gathered : Form.written.GatheredUnder (· ∈ Item.fields items) child.children)
    (listed : ⟨head, items⟩ ∈ Item.fields whole) :
    Form.written.Gathered (Form.written.Under (· ∈ Item.fields whole) child.outputKey) child := by
  obtain ⟨-, rfl⟩ := ofHead_ok isLeaf
  obtain ⟨name, aliasName, arguments⟩ := head_of_fill filled
  have own : (⟨head, items⟩ : WrittenField).head =
      ⟨child.name, child.aliasName, child.arguments⟩ := by
    rw [name, aliasName, arguments]; rfl
  have known : Form.written.Under (· ∈ Item.fields whole) child.outputKey ⟨head, items⟩ :=
    ⟨listed, congrArg FieldHead.outputKey own⟩
  exact .intro ⟨_, known, own⟩
    (gathered.mono fun v inside => ⟨_, known, congrArg FieldHead.name own, inside⟩)
    fun _ _ _ _ => ⟨_, known, congrArg FieldHead.name own, trivial⟩

/-- **What is filled is gathered from the fields of the selection set around it, and where this
fails the document has the fault that is reported.** -/
theorem fill_faulty {document : Document} {available : Keyed Fragment} {path : Path}
    {target : Selection} {items whole : List (Item Value)}
    (expanding : document.Expanding available items) (reached : document.Reaches whole)
    (held : ∀ item ∈ items, document.Holds item)
    (listed : ∀ f ∈ Item.fields items, f ∈ Item.fields whole)
    (gathered : Form.written.GatheredUnder (· ∈ Item.fields whole) target.children) :
    Yields (fun filled => Form.written.GatheredUnder (· ∈ Item.fields whole) filled.children)
      (fun e => document.Faulty e.fault)
      (fill document.fragments available path target items) := by
  fun_induction fill document.fragments available path target items generalizing whole with
  | case1 => exact .ok gathered
  | case2 available path target head items rest childPath ihChild =>
    rename_i ihRest
    obtain ⟨own, later⟩ := List.forall_mem_cons.mp held
    obtain ⟨here, others⟩ := List.forall_mem_cons.mp listed
    have below : document.Reaches items := by
      obtain ⟨around, known, present⟩ := own
      exact .field known present
    refine (Yields.of_failsOnly (ofHead_failsOnly (.field own) _)).bind fun leaf isLeaf _ => ?_
    have noChildren : leaf.children = [] := by
      rw [(ofHead_ok isLeaf).2]; rfl
    have inner := ihChild leaf (expanding.mono fun _ => List.mem_append_left _) below
      (fun item present => ⟨items, below, present⟩) (fun _ present => present)
      (noChildren ▸ List.forall_mem_nil _)
    refine inner.bind fun child filled children => ?_
    have pushed := Form.push_gathered gathered (gathered_of_fill isLeaf filled children here)
    refine (pushed.mapError ?_).bind fun next _ more => ?_
    · rintro field ⟨f, g, left, right, same, clash⟩
      exact .duplicateField reached left right same clash.disagree
    · exact ihRest next (expanding.mono fun _ => List.mem_append_right _) reached later others more
  | case3 available path target name rest known missing =>
    exact .error (.fragmentCycle (held _ List.mem_cons_self)
      (expanding.leads name known missing name List.mem_cons_self))
  | case4 available path target name rest known fragment found ihFragment ihRest =>
    obtain ⟨own, later⟩ := List.forall_mem_cons.mp held
    have below : document.Reaches fragment.items := by
      obtain ⟨around, known, present⟩ := own
      exact .spread known present (expanding.defined name fragment found)
    have inner := ihFragment (expanding.erase List.mem_cons_self found) below
      (fun item present => ⟨_, below, present⟩) (fun _ present => present)
      (List.forall_mem_nil _)
    exact (inner.bind fun expanded _ _ => ihRest expanded
      (expanding.mono fun _ => List.mem_cons_of_mem _) reached later listed gathered)
  | case5 available path target name rest unknown =>
    refine .error (.unknownFragment (held _ List.mem_cons_self) ?_)
    rw [Keyed.hasKey] at unknown
    exact Option.not_isSome_iff_eq_none.mp unknown
  | case6 available path target condition items rest ihFragment ihRest =>
    obtain ⟨⟨around, known, present⟩, later⟩ := List.forall_mem_cons.mp held
    have below : document.Reaches items := .inline known present
    have inner := ihFragment (expanding.mono fun _ => List.mem_append_left _) below
      (fun item present => ⟨_, below, present⟩) (fun _ present => present)
      (List.forall_mem_nil _)
    exact inner.bind fun expanded _ _ => ihRest expanded
      (expanding.mono fun _ => List.mem_append_right _) reached later listed gathered
  | case7 available path target items rest ihItems ihRest =>
    obtain ⟨⟨around, known, present⟩, later⟩ := List.forall_mem_cons.mp held
    have below : document.Reaches items := .inline known present
    obtain ⟨inner, others⟩ := List.forall_mem_append.mp listed
    have first := ihItems (expanding.mono fun _ => List.mem_append_left _) reached
      (fun item present => ⟨_, below, present⟩) inner gathered
    exact first.bind fun next _ more => ihRest next
      (expanding.mono fun _ => List.mem_append_right _) reached later others more

/-- A document that is refused has the fault that is reported. -/
theorem ofDocument_faulty {document : Document}
    (distinct : (document.fragments.map Prod.fst).Nodup) :
    FailsOnly (fun e => document.Faulty e.fault) (ofDocument document) := by
  refine (ofHead_failsOnly .root _).bind fun leaf isLeaf => ?_
  have noChildren : leaf.children = [] := by
    rw [(ofHead_ok isLeaf).2]; rfl
  exact (fill_faulty (.start distinct) .root (fun item present => ⟨_, .root, present⟩)
    (fun _ present => present) (noChildren ▸ List.forall_mem_nil _)).failsOnly

end Selection

end GraphRead
