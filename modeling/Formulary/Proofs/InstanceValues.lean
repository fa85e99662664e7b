import Formulary.Instance
import Formulary.Proofs.InstanceDeletion

/-!
# Values of instances

The values of a field are the last nodes of its guarded walks (`Dataset.mem_follow`). A graph that
holds what the walks of a field show has all of these walks, and with them the values: extraction
keeps them. Deletion takes the first hop of every walk, so that no value is left.
-/

namespace Formulary
open Std

namespace Graph

variable {g h : Graph} {step : Step} {source target : Term} {chain rest : Chain} {nodes : List Term}

/-- Some walk along the chain ends at the target. -/
def LeadsTo (g : Graph) (source : Term) (chain : Chain) (target : Term) : Prop :=
  ∃ nodes, g.Walk source chain nodes ∧ nodes.getLast? = some target

theorem leadsTo_singleton : g.LeadsTo source [step] target ↔ step.triple source target ∈ g := by
  constructor
  · rintro ⟨nodes, walk, last⟩
    cases walk with
    | last edge =>
      obtain rfl := Option.some.inj last
      exact edge
    | next _ _ onward => exact absurd rfl onward.chain_ne_nil
  · intro edge
    exact ⟨[target], .last edge, rfl⟩

theorem leadsTo_cons (more : rest ≠ []) : g.LeadsTo source (step :: rest) target ↔
    ∃ node, step.triple source node ∈ g ∧ g.IsGuarded node ∧ g.LeadsTo node rest target := by
  constructor
  · rintro ⟨nodes, walk, last⟩
    cases walk with
    | last _ => exact absurd rfl more
    | @next _ _ node _ later edge guarded onward =>
      obtain ⟨first, others, rfl⟩ := List.exists_cons_of_ne_nil onward.nodes_ne_nil
      rw [List.getLast?_cons_cons] at last
      exact ⟨node, edge, guarded, _, onward, last⟩
  · rintro ⟨node, edge, guarded, nodes, onward, last⟩
    obtain ⟨first, others, rfl⟩ := List.exists_cons_of_ne_nil onward.nodes_ne_nil
    refine ⟨node :: first :: others, .next edge guarded onward, ?_⟩
    rw [List.getLast?_cons_cons]
    exact last

/-- A walk is one in every graph that holds what it shows. -/
theorem Walk.transfer (walk : g.Walk source chain nodes)
    (kept : ∀ t, g.Shows source chain nodes t → t ∈ h) : h.Walk source chain nodes := by
  induction walk with
  | last edge => exact .last (kept _ (.inl (List.mem_singleton_self _)))
  | @next step source node rest nodes edge guarded onward ih =>
    have between : node ∈ (node :: nodes).dropLast := by
      rw [List.dropLast_cons_of_ne_nil onward.nodes_ne_nil]
      exact List.mem_cons_self
    obtain ⟨⟨uuid, identified⟩, type, typed⟩ := guarded
    have guards : h.IsGuarded node :=
      ⟨⟨uuid, kept _ (.inr ⟨node, between, identified, rfl, .inl rfl⟩)⟩,
        type, kept _ (.inr ⟨node, between, typed, rfl, .inr rfl⟩)⟩
    refine .next (kept _ (.inl List.mem_cons_self)) guards (ih fun t shown => kept t ?_)
    rcases shown with hop | ⟨other, later, guard⟩
    · exact .inl (List.mem_cons_of_mem _ hop)
    · refine .inr ⟨other, ?_, guard⟩
      rw [List.dropLast_cons_of_ne_nil onward.nodes_ne_nil]
      exact List.mem_cons_of_mem _ later

theorem Walk.mono (walk : g.Walk source chain nodes) (within : ∀ t ∈ g, t ∈ h) :
    h.Walk source chain nodes :=
  walk.transfer fun t shown => within t (walk.mem_of_shows shown)

theorem Walk.hopTriples_ne_nil (walk : g.Walk source chain nodes) :
    hopTriples source chain nodes ≠ [] := by
  cases walk <;> exact List.cons_ne_nil _ _

/-! ## The values that are read -/

theorem mem_across {node : Term} : target ∈ g.across step node ↔ step.triple node target ∈ g := by
  cases direction : step.direction with
  | forward =>
    simp only [across, Step.triple, direction, List.mem_map, List.mem_filter, SortedSet.mem_toList,
      decide_eq_true_eq]
    constructor
    · rintro ⟨t, ⟨member, rfl, predicate⟩, rfl⟩
      rw [← predicate]
      exact member
    · intro member
      exact ⟨_, ⟨member, rfl, rfl⟩, rfl⟩
  | inverse =>
    simp only [across, Step.triple, direction, List.mem_map, List.mem_filter, SortedSet.mem_toList,
      decide_eq_true_eq]
    constructor
    · rintro ⟨t, ⟨member, predicate, rfl⟩, rfl⟩
      rw [← predicate]
      exact member
    · intro member
      exact ⟨_, ⟨member, rfl, rfl⟩, rfl⟩

theorem mem_acrossAll {sources : SortedSet Term} :
    target ∈ g.acrossAll step sources ↔ ∃ node ∈ sources, step.triple node target ∈ g := by
  simp only [acrossAll, SortedSet.mem_ofList, List.mem_flatMap, SortedSet.mem_toList, mem_across]

end Graph

namespace Dataset

variable {d e : Dataset} {root target : Term} {chain : Chain} {chains : PathMap}

theorem isSome_objectOf {subject predicate : Term} : (d.objectOf subject predicate).isSome ↔
    ∃ object, ⟨subject, predicate, object⟩ ∈ d.graph none := by
  simp only [objectOf, Option.isSome_map, List.find?_isSome, SortedSet.mem_toList,
    Bool.and_eq_true, beq_iff_eq]
  constructor
  · rintro ⟨t, member, rfl, rfl⟩
    exact ⟨t.object, member⟩
  · rintro ⟨object, member⟩
    exact ⟨_, member, rfl, rfl⟩

theorem isAddressable_iff {node : Term} :
    d.isAddressable node = true ↔ (d.graph none).IsGuarded node := by
  rw [isAddressable, Bool.and_eq_true, isSome_objectOf, isSome_objectOf]
  rfl

/-- Following a chain from several nodes gives the ends of all walks from any of them. -/
theorem mem_followFrom {sources : SortedSet Term} (steps : chain ≠ []) :
    target ∈ d.followFrom sources chain ↔
      ∃ source ∈ sources, (d.graph none).LeadsTo source chain target := by
  induction chain generalizing sources with
  | nil => exact absurd rfl steps
  | cons step rest ih =>
    cases rest with
    | nil =>
      rw [followFrom, Graph.mem_acrossAll]
      simp only [Graph.leadsTo_singleton]
    | cons following others =>
      have more : following :: others ≠ [] := List.cons_ne_nil _ _
      have onward : d.followFrom sources (step :: following :: others) =
          d.followFrom (((d.graph none).acrossAll step sources).filter d.isAddressable)
            (following :: others) := rfl
      rw [onward, ih more]
      simp only [SortedSet.mem_filter, Graph.mem_acrossAll, isAddressable_iff,
        Graph.leadsTo_cons more]
      constructor
      · rintro ⟨node, ⟨⟨source, member, edge⟩, guarded⟩, onward⟩
        exact ⟨source, member, node, edge, guarded, onward⟩
      · rintro ⟨source, member, node, edge, guarded, onward⟩
        exact ⟨node, ⟨⟨source, member, edge⟩, guarded⟩, onward⟩

theorem mem_follow (steps : chain ≠ []) :
    target ∈ d.follow root chain ↔ (d.graph none).LeadsTo root chain target := by
  rw [follow, mem_followFrom steps]
  simp only [SortedSet.mem_ofList, List.mem_singleton, exists_eq_left]

/-- Data with the same walks have the same values. -/
theorem fieldValues_congr (same : ∀ chain ∈ chains.values, ∀ nodes,
    (d.graph none).Walk root chain nodes ↔ (e.graph none).Walk root chain nodes) :
    d.fieldValues root chains = e.fieldValues root chains := by
  refine SortedMap.mapValues_congr fun chain member => ?_
  cases chain with
  | nil => rfl
  | cons step rest =>
    have steps : step :: rest ≠ [] := List.cons_ne_nil _ _
    have ends : d.follow root (step :: rest) = e.follow root (step :: rest) := by
      refine SortedSet.ext_mem fun target => ?_
      simp only [mem_follow steps, Graph.LeadsTo, same _ member]
    rw [ends]

/-- Without walks there are no values. -/
theorem fieldValues_eq_nil (none : ∀ chain ∈ chains.values, ∀ nodes,
    ¬ (d.graph none).Walk root chain nodes) :
    d.fieldValues root chains = chains.mapValues fun _ => [] := by
  refine SortedMap.mapValues_congr fun chain member => ?_
  cases chain with
  | nil => rfl
  | cons step rest =>
    have steps : step :: rest ≠ [] := List.cons_ne_nil _ _
    refine SortedSet.toList_eq_nil_iff.mpr fun target value => ?_
    obtain ⟨nodes, walk, -⟩ := (mem_follow steps).mp value
    exact none _ member nodes walk

end Dataset

namespace InstanceQuery

variable {root type : Term} {chains : PathMap} {data : Dataset} {chain : Chain} {nodes : List Term}

/-- The query for a fixed root selects what belongs to it where it has the type. -/
theorem mem_matched_term_iff {deletes : Bool} {t : Triple}
    (valid : ∀ t ∈ data.graph none, t.isValid) :
    t ∈ (build chains (.term root) type deletes).matched data ↔
      ⟨root, .iri Rdf.type, type⟩ ∈ data.graph none ∧
        (data.graph none).Belongs chains type root t := by
  rw [mem_matched_iff (fun _ there => absurd there List.not_mem_nil) valid]
  constructor
  · rintro ⟨_, answer⟩
    exact answer
  · intro answer
    exact ⟨default, answer⟩

/-- A graph that holds just what belongs to an instance. -/
structure Extracts (data : Graph) (chains : PathMap) (type root : Term) (extracted : Graph) :
    Prop where
  mem_iff : ∀ t, t ∈ extracted ↔ data.Belongs chains type root t
  typed : ⟨root, .iri Rdf.type, type⟩ ∈ data

namespace Extracts

variable {g extracted : Graph} (extracts : Extracts g chains type root extracted)
include extracts

theorem mem_of_mem {t : Triple} (member : t ∈ extracted) : t ∈ g :=
  ((extracts.mem_iff t).mp member).mem extracts.typed

theorem mem_of_shows {t : Triple} (listed : chain ∈ chains.values) (walk : g.Walk root chain nodes)
    (shown : g.Shows root chain nodes t) : t ∈ extracted :=
  (extracts.mem_iff t).mpr (.inr (.inr ⟨chain, listed, nodes, walk, shown⟩))

theorem walk_iff (listed : chain ∈ chains.values) :
    extracted.Walk root chain nodes ↔ g.Walk root chain nodes := by
  constructor
  · intro walk
    exact walk.mono fun t member => extracts.mem_of_mem member
  · intro walk
    exact walk.transfer fun t shown => extracts.mem_of_shows listed walk shown

/-- What a walk shows in the extract is what it shows in the data. -/
theorem shows_iff {t : Triple} (listed : chain ∈ chains.values) (walk : g.Walk root chain nodes) :
    extracted.Shows root chain nodes t ↔ g.Shows root chain nodes t := by
  constructor
  · rintro (hop | ⟨node, between, member, guard⟩)
    · exact .inl hop
    · exact .inr ⟨node, between, extracts.mem_of_mem member, guard⟩
  · intro shown
    rcases shown with hop | ⟨node, between, guard⟩
    · exact .inl hop
    · have member := extracts.mem_of_shows listed walk (.inr ⟨node, between, guard⟩)
      exact .inr ⟨node, between, member, guard.2⟩

/-- To an instance belongs in the extract what belongs to it in the data. -/
theorem belongs_iff {t : Triple} :
    extracted.Belongs chains type root t ↔ g.Belongs chains type root t := by
  refine or_congr_right (or_congr ?_ ?_)
  · constructor
    · rintro ⟨member, about⟩
      exact ⟨extracts.mem_of_mem member, about⟩
    · intro modified
      exact ⟨(extracts.mem_iff t).mpr (.inr (.inl modified)), modified.2⟩
  · refine exists_congr fun chain => and_congr_right fun listed => exists_congr fun nodes => ?_
    rw [extracts.walk_iff listed]
    exact and_congr_right fun walk => extracts.shows_iff listed walk

end Extracts

/-- Extraction keeps the values of all fields, and extracting once more selects the same triples
again. Deletion leaves no value of any field. -/
theorem fieldValues_extracted_deleted (chains : PathMap) (root type : Term) (data : Dataset)
    (valid : ∀ t ∈ data.graph none, t.isValid)
    (typed : ⟨root, .iri Rdf.type, type⟩ ∈ data.graph none) :
    let extract := build chains (.term root) type false
    let delete := build chains (.term root) type true
    let extracted := Dataset.ofGraph (extract.matched data)
    extracted.fieldValues root chains = data.fieldValues root chains ∧
      extract.matched extracted = extract.matched data ∧
      (delete.execute data).2.fieldValues root chains = chains.mapValues fun _ => [] := by
  intro extract delete extracted
  have graph_extracted : extracted.graph none = extract.matched data := by
    rw [Dataset.graph_ofGraph, if_pos rfl]
  have extracts : Extracts (data.graph none) chains type root (extracted.graph none) := by
    refine ⟨fun t => ?_, typed⟩
    rw [graph_extracted, mem_matched_term_iff valid, and_iff_right typed]
  have validExtracted : ∀ t ∈ extracted.graph none, t.isValid := fun t member =>
    valid t (extracts.mem_of_mem member)
  refine ⟨?_, ?_, ?_⟩
  · exact Dataset.fieldValues_congr fun chain listed nodes => extracts.walk_iff listed
  · have typedExtracted : ⟨root, .iri Rdf.type, type⟩ ∈ extracted.graph none :=
      (extracts.mem_iff _).mpr (.inl rfl)
    refine SortedSet.ext_mem fun t => ?_
    rw [mem_matched_term_iff validExtracted, and_iff_right typedExtracted, extracts.belongs_iff,
      ← extracts.mem_iff, graph_extracted]
  · refine Dataset.fieldValues_eq_nil fun chain listed nodes walk => ?_
    have left : ∀ t, t ∈ (delete.execute data).2.graph none ↔
        t ∈ data.graph none ∧ t ∉ delete.matched data := fun t => Dataset.mem_graph_deleteWhere
    -- The first hop of a walk that is left was selected, and so it is not there.
    have before : (data.graph none).Walk root chain nodes :=
      walk.mono fun t member => ((left t).mp member).1
    obtain ⟨hop, hops, same⟩ := List.exists_cons_of_ne_nil walk.hopTriples_ne_nil
    have shown : ∀ g : Graph, g.Shows root chain nodes hop := fun g =>
      .inl (same ▸ List.mem_cons_self)
    have selected : hop ∈ delete.matched data :=
      (mem_matched_term_iff valid).mpr ⟨typed, .inr (.inr ⟨chain, listed, nodes, before, shown _⟩)⟩
    exact ((left hop).mp (walk.mem_of_shows (shown _))).2 selected

/-- The topic of the document is read from the extract as well, and no longer after deletion. -/
theorem fieldValues_extracted_deleted_madeDocument :
    (∀ t ∈ madeDocument.graph none, t.isValid) ∧
    ⟨.iri "doc", .iri Rdf.type, .iri "Document"⟩ ∈ madeDocument.graph none ∧
    let extract := build topicField (.term (.iri "doc")) (.iri "Document") false
    let delete := build topicField (.term (.iri "doc")) (.iri "Document") true
    (Dataset.ofGraph (extract.matched madeDocument)).fieldValues (.iri "doc") topicField =
        .ofList [(.field (.iri "topicField"), [.iri "topic"])] ∧
      (delete.execute madeDocument).2.fieldValues (.iri "doc") topicField =
        .ofList [(.field (.iri "topicField"), [])] := by
  have typed : ⟨.iri "doc", .iri Rdf.type, .iri "Document"⟩ ∈ madeDocument.graph none :=
    by simp [madeDocument, Dataset.ofGraph, Dataset.graph_setGraph]
  obtain ⟨kept, -, gone⟩ := fieldValues_extracted_deleted topicField (.iri "doc") (.iri "Document")
    madeDocument valid_madeDocument typed
  exact ⟨valid_madeDocument, typed, kept.trans rfl, gone.trans rfl⟩

end InstanceQuery
end Formulary
