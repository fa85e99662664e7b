import Formulary.Proofs.GuardedWalk
import Formulary.Proofs.IndependentOptionals

/-!
# What an instance query selects

The triples that belong to an instance are its type, the times of its last change, and what the
guarded walks of its fields show. The query selects exactly these (`mem_matched_iff`): the fields are
independent optional groups, so none of them suppresses or extends what another one contributes.
-/

namespace Formulary
open Std

/-- The triples that belong to an instance of a type. -/
def Graph.Belongs (g : Graph) (chains : PathMap) (type root : Term) (t : Triple) : Prop :=
  t = ⟨root, .iri Rdf.type, type⟩ ∨
    (t ∈ g ∧ t.subject = root ∧ t.predicate = .iri Dct.modified) ∨
    ∃ chain ∈ chains.values, ∃ nodes, g.Walk root chain nodes ∧ g.Shows root chain nodes t

/-- All that belongs to an instance of the graph is in the graph. -/
theorem Graph.Belongs.mem {g : Graph} {chains : PathMap} {type root : Term} {t : Triple}
    (belongs : g.Belongs chains type root t) (typed : ⟨root, .iri Rdf.type, type⟩ ∈ g) : t ∈ g := by
  rcases belongs with rfl | ⟨member, -⟩ | ⟨chain, -, nodes, walk, shown⟩
  · exact typed
  · exact member
  · exact walk.mem_of_shows shown

namespace Group

/-- The patterns of plain groups are their required ones. -/
theorem mem_patternsOf_plain {groups : List Group} (plain : ∀ group ∈ groups, group.optionals = [])
    {p : TriplePattern} : p ∈ patternsOf groups ↔ ∃ group ∈ groups, p ∈ group.patterns := by
  induction groups with
  | nil => simp [patternsOf]
  | cons group rest ih =>
    obtain ⟨here, later⟩ := List.forall_mem_cons.mp plain
    obtain ⟨patterns, optionals⟩ := group
    subst here
    rw [patternsOf, allPatterns, patternsOf, List.append_nil, List.mem_append, ih later]
    simp

end Group

namespace InstanceQuery

variable {root : Slot} {chains : PathMap} {type : Term} {data : Dataset} {σ : Valuation} {t : Triple}

/-- The optional groups of the body, the time of the last change first. -/
def optionalGroups (root : Slot) (chains : PathMap) : List Group :=
  modifiedGroup root :: fieldGroups root chains.values

/-- The row that a typed root gives before any optional group. -/
def rootRow (root : Slot) (σ : Valuation) : Solution := Solution.assign ∅ root.vars σ

theorem get?_rootRow {v : Variable} :
    (rootRow root σ).get? v = if v ∈ root.vars then some (σ v) else none := by
  rw [rootRow, Solution.get?_assign, SortedMap.get?_empty]

theorem rootRow_eq_none {v : Variable} : (rootRow root σ).get? v = none ↔ v ∉ root.vars := by
  rw [get?_rootRow]
  by_cases member : v ∈ root.vars <;> simp [member]

/-- A valuation agrees with the row of a root exactly where it gives the root its value. -/
theorem agrees_rootRow_iff {τ : Valuation} :
    (rootRow root σ).Agrees τ ↔ ∀ v ∈ root.vars, τ v = σ v := by
  constructor
  · exact fun agrees v member => Solution.eq_of_agrees_assign agrees member
  · intro same v value bound
    rw [get?_rootRow] at bound
    by_cases member : v ∈ root.vars
    · rw [if_pos member] at bound
      exact (same v member).trans (Option.some.inj bound)
    · rw [if_neg member] at bound
      exact absurd bound nofun

/-! ## The groups of the body are independent -/

theorem mem_fieldGroups {fields : List Chain} {group : Group} : group ∈ fieldGroups root fields ↔
    ∃ index chain, (fields.filter (!·.isEmpty))[index]? = some chain ∧
      group = fieldGroup root index chain := by
  simp only [fieldGroups, List.mem_iff_getElem?, List.getElem?_mapIdx, Option.map_eq_some_iff]
  exact exists_congr fun index => exists_congr fun chain => and_congr_right fun _ => eq_comm

/-- A numbered field is one of the fields, and it has steps. -/
theorem listed_of_field {fields : List Chain} {index : Nat} {chain : Chain}
    (field : (fields.filter (!·.isEmpty))[index]? = some chain) : chain ∈ fields ∧ chain ≠ [] := by
  obtain ⟨listed, steps⟩ := List.mem_filter.mp (List.mem_of_getElem? field)
  exact ⟨listed, by simpa using steps⟩

theorem plain_optionalGroups : ∀ group ∈ optionalGroups root chains, group.optionals = [] := by
  intro group member
  rcases List.mem_cons.mp member with rfl | field
  · rfl
  · obtain ⟨index, chain, -, rfl⟩ := mem_fieldGroups.mp field
    rfl

private theorem mem_vars_fieldGroup {index : Nat} {chain : Chain} {v : Variable}
    (member : v ∈ (fieldGroup root index chain).vars) : v ∈ root.vars ∨ Beyond index 0 v := by
  obtain ⟨p, pattern, there⟩ := List.mem_flatMap.mp member
  exact (fieldPattern_of_mem pattern).within v there

theorem mem_vars_modifiedGroup {v : Variable} :
    v ∈ (modifiedGroup root).vars ↔ v ∈ root.vars ∨ v = modified := by
  simp [modifiedGroup, Group.vars, TriplePattern.vars, Verb.vars, Slot.vars, modified]

private theorem not_beyond_modified {index hop : Nat} : ¬ Beyond index hop modified := by
  rintro ⟨part, later, -, same⟩
  exact modified_ne_partOf part index later same

private theorem index_unique {index index' hop hop' : Nat} {v : Variable}
    (one : Beyond index hop v) (two : Beyond index' hop' v) : index = index' := by
  obtain ⟨_, _, -, rfl⟩ := one
  obtain ⟨_, _, -, same⟩ := two
  exact (partOf_inj.mp same).2.1

theorem independent_optionalGroups :
    Independent (rootRow root σ) (optionalGroups root chains) := by
  refine ⟨plain_optionalGroups, List.pairwise_cons.mpr ⟨fun group member => ?_, ?_⟩⟩
  · obtain ⟨index, chain, -, rfl⟩ := mem_fieldGroups.mp member
    intro v here there open_
    have outside := rootRow_eq_none.mp open_
    have same := (mem_vars_modifiedGroup.mp here).resolve_left outside
    exact not_beyond_modified (same ▸ (mem_vars_fieldGroup there).resolve_left outside)
  · rw [fieldGroups, List.pairwise_iff_getElem]
    intro i j hi hj order v here there open_
    have outside := rootRow_eq_none.mp open_
    rw [List.getElem_mapIdx] at here there
    have same := index_unique ((mem_vars_fieldGroup here).resolve_left outside)
      ((mem_vars_fieldGroup there).resolve_left outside)
    omega

theorem simple_optionalGroups :
    ∀ group ∈ optionalGroups root chains, ∀ p ∈ group.patterns, p.verb.IsSimple := by
  intro group member p pattern
  rcases List.mem_cons.mp member with rfl | field
  · rw [List.mem_singleton.mp pattern]
    trivial
  · obtain ⟨index, chain, -, rfl⟩ := mem_fieldGroups.mp field
    exact (fieldPattern_of_mem pattern).simple

/-- Every optional pattern has a variable that the root leaves open. -/
theorem own_optionalGroups (free : ∀ v ∈ root.vars, ¬ IsGenerated v) :
    ∀ group ∈ optionalGroups root chains, ∀ p ∈ group.patterns,
      ∃ v ∈ p.vars, (rootRow root σ).get? v = none := by
  intro group member p pattern
  rcases List.mem_cons.mp member with rfl | field
  · rw [List.mem_singleton.mp pattern]
    refine ⟨modified, by simp [TriplePattern.vars, Slot.vars, modified], ?_⟩
    exact rootRow_eq_none.mpr fun there => free _ there (.inl rfl)
  · obtain ⟨index, chain, -, rfl⟩ := mem_fieldGroups.mp field
    obtain ⟨v, there, part, later, -, rfl⟩ := (fieldPattern_of_mem pattern).own
    exact ⟨_, there, rootRow_eq_none.mpr fun inside => free _ inside (.inr ⟨part, index, later, rfl⟩)⟩

/-! ## Rows and template -/

private theorem mem_rootRows {g : Graph} {row : Solution} :
    row ∈ extendAll g [⟨root, .term (.iri Rdf.type), .term type⟩] [∅] ↔
      ∃ σ : Valuation, ⟨root.under σ, .iri Rdf.type, type⟩ ∈ g ∧ row = rootRow root σ := by
  simp [mem_extendAll, Solution.Extension, Solution.agrees_empty, rootRow]

/-- The rows of the body: those of the optional groups, for every root that has the type. -/
theorem mem_select_bodyOf {final : Solution} : final ∈ data.select (bodyOf chains root type) ↔
    ∃ σ : Valuation, ⟨root.under σ, .iri Rdf.type, type⟩ ∈ data.graph none ∧
      final ∈ Group.evaluateOptionals (data.graph none) (optionalGroups root chains)
        [rootRow root σ] := by
  let fields : Group := { optionals := optionalGroups root chains }
  have kept : ∀ row, final ∈ Group.evaluateOptionals (data.graph none) [fields] [row] ↔
      final ∈ Group.evaluateOptionals (data.graph none) (optionalGroups root chains) [row] := by
    intro row
    have answered := Group.evaluateOptionals_ne_nil (data.graph none) (optionalGroups root chains)
      (List.cons_ne_nil row [])
    have inner : fields.evaluate (data.graph none) row =
        Group.evaluateOptionals (data.graph none) (optionalGroups root chains) [row] := by
      rw [Group.evaluate, extendAll, List.foldl_nil]
    simp [Group.evaluateOptionals, Group.mem_orKeep, inner, answered]
  rw [Dataset.select, Dataset.selectIn, bodyOf, Group.evaluate, Group.mem_evaluateOptionals]
  constructor
  · rintro ⟨row, rooted, found⟩
    obtain ⟨σ, typed, rfl⟩ := mem_rootRows.mp rooted
    exact ⟨σ, typed, (kept _).mp found⟩
  · rintro ⟨σ, typed, found⟩
    exact ⟨_, mem_rootRows.mpr ⟨σ, typed, rfl⟩, (kept _).mpr found⟩

theorem mem_allPatterns_bodyOf {p : TriplePattern} : p ∈ (bodyOf chains root type).allPatterns ↔
    p = ⟨root, .term (.iri Rdf.type), .term type⟩ ∨
      ∃ group ∈ optionalGroups root chains, p ∈ group.patterns := by
  rw [← Group.mem_patternsOf_plain plain_optionalGroups]
  simp [bodyOf, Group.allPatterns, Group.patternsOf, optionalGroups]

/-! ## What is selected -/

/-- What one group contributes belongs to the instance, and all that belongs to it is contributed. -/
theorem contributes_iff (free : ∀ v ∈ root.vars, ¬ IsGenerated v) {g : Graph} :
    (∃ group ∈ optionalGroups root chains, ∃ τ, (rootRow root σ).Agrees τ ∧ group.Matches g τ ∧
      ∃ p ∈ group.patterns, p.image τ = t) ↔
    (t ∈ g ∧ t.subject = root.under σ ∧ t.predicate = .iri Dct.modified) ∨
      ∃ chain ∈ chains.values, ∃ nodes, g.Walk (root.under σ) chain nodes ∧
        g.Shows (root.under σ) chain nodes t := by
  have apart : ∀ index, ∀ v ∈ root.vars, ¬ Beyond index 0 v := fun index v there beyond =>
    let ⟨part, later, _, same⟩ := beyond
    free v there (.inr ⟨part, index, later, same⟩)
  rw [optionalGroups, List.exists_mem_cons_iff]
  refine or_congr ?_ ?_
  · simp only [Group.Matches, modifiedGroup, List.mem_singleton, forall_eq, exists_eq_left,
      agrees_rootRow_iff]
    constructor
    · rintro ⟨τ, same, holds, rfl⟩
      exact ⟨holds, Slot.under_congr same, rfl⟩
    · rintro ⟨member, subject, predicate⟩
      have same : ∀ v ∈ root.vars, Function.update σ modified t.object v = σ v := fun v there =>
        Function.update_of_ne (fun here => free v there (.inl here)) ..
      have image : TriplePattern.image (Function.update σ modified t.object)
          ⟨root, .term (.iri Dct.modified), .var modified⟩ = t := by
        rw [TriplePattern.image, Slot.under_congr same, ← subject, Slot.under, Verb.under, ← predicate,
          Function.update_self]
      exact ⟨_, same, TriplePattern.holds_term.mpr (image ▸ member), image⟩
  · constructor
    · rintro ⟨group, member, τ, agrees, holds, p, pattern, made⟩
      obtain ⟨index, chain, field, rfl⟩ := mem_fieldGroups.mp member
      obtain ⟨listed, steps⟩ := listed_of_field field
      have rooted : root.under τ = root.under σ := Slot.under_congr (agrees_rootRow_iff.mp agrees)
      exact ⟨chain, listed, (exists_image_iff steps rooted (apart index)).mp
        ⟨τ, fun _ _ => rfl, holds, p, pattern, made⟩⟩
    · rintro ⟨chain, listed, nodes, walk, shown⟩
      have filtered : chain ∈ chains.values.filter (!·.isEmpty) :=
        List.mem_filter.mpr ⟨listed, by simpa using walk.chain_ne_nil⟩
      obtain ⟨index, field⟩ := List.mem_iff_getElem?.mp filtered
      obtain ⟨τ, outside, holds, p, pattern, made⟩ :=
        (exists_image_iff walk.chain_ne_nil rfl (apart index)).mpr ⟨nodes, walk, shown⟩
      exact ⟨_, mem_fieldGroups.mpr ⟨index, chain, field, rfl⟩, τ, agrees_rootRow_iff.mpr
        fun v there => outside v (apart index v there), holds, p, pattern, made⟩

/-- For each instance that its root may stand for, the query selects the type, what the optional groups
make of their answers, and what patterns without another variable than the root stand for. -/
theorem mem_matched_iff_contributes {deletes : Bool} (valid : ∀ t ∈ data.graph none, t.isValid) :
    t ∈ (build chains root type deletes).matched data ↔
      ∃ σ : Valuation, ⟨root.under σ, .iri Rdf.type, type⟩ ∈ data.graph none ∧
        (t = ⟨root.under σ, .iri Rdf.type, type⟩ ∨
          (∃ group ∈ optionalGroups root chains, ∃ τ, (rootRow root σ).Agrees τ ∧
            group.Matches (data.graph none) τ ∧ ∃ p ∈ group.patterns, p.image τ = t) ∨
          ∃ group ∈ optionalGroups root chains, ∃ p ∈ group.patterns, (∀ v ∈ p.vars, v ∈ root.vars) ∧
            t.isValid ∧ p.image σ = t) := by
  simp only [matched, build, Dataset.construct, mem_instantiateAll, mem_select_bodyOf,
    mem_allPatterns_bodyOf]
  have typePattern : ∀ (σ : Valuation) (final : Solution),
      ⟨root.under σ, .iri Rdf.type, type⟩ ∈ data.graph none →
      final ∈ Group.evaluateOptionals (data.graph none) (optionalGroups root chains)
        [rootRow root σ] →
      TriplePattern.instantiate? ⟨root, .term (.iri Rdf.type), .term type⟩ final =
        some ⟨root.under σ, .iri Rdf.type, type⟩ := by
    intro σ final typed found
    have extend := (independent_optionalGroups.settled (.refl ..) found).1
    have bound : ∀ v ∈ TriplePattern.vars ⟨root, .term (.iri Rdf.type), .term type⟩,
        final.get? v = some (σ v) := fun v there =>
      extend v (σ v) (by rw [get?_rootRow, if_pos (by simpa using there)])
    exact (TriplePattern.instantiate?_of_bound (by trivial) bound).trans (if_pos (valid _ typed))
  have rooted : ∀ (σ : Valuation) (v : Variable), (rootRow root σ).get? v ≠ none ↔ v ∈ root.vars :=
    fun σ v => not_iff_comm.mp rootRow_eq_none.symm
  have independent : ∀ σ, Independent (rootRow root σ) (optionalGroups root chains) := fun _ =>
    independent_optionalGroups
  have contributed := fun σ : Valuation => (independent σ).exists_instantiate?_iff_or_bound (t := t)
    simple_optionalGroups valid (agrees_rootRow_iff.mpr fun _ _ => rfl)
  simp only [rooted] at contributed
  constructor
  · rintro ⟨final, ⟨σ, typed, found⟩, p, rfl | ⟨group, member, pattern⟩, made⟩
    · rw [typePattern σ final typed found] at made
      exact ⟨σ, typed, .inl (Option.some.inj made).symm⟩
    · exact ⟨σ, typed, .inr ((contributed σ).mp ⟨final, found, group, member, p, pattern, made⟩)⟩
  · rintro ⟨σ, typed, rfl | answer⟩
    · obtain ⟨final, found⟩ := List.exists_mem_of_ne_nil _ (Group.evaluateOptionals_ne_nil
        (data.graph none) (optionalGroups root chains) (List.cons_ne_nil (rootRow root σ) []))
      exact ⟨final, ⟨σ, typed, found⟩, _, .inl rfl, typePattern σ final typed found⟩
    · obtain ⟨final, found, group, member, p, pattern, made⟩ := (contributed σ).mpr answer
      exact ⟨final, ⟨σ, typed, found⟩, p, .inr ⟨group, member, pattern⟩, made⟩

/-- The query selects what belongs to each instance that its root may stand for. -/
theorem mem_matched_iff {deletes : Bool} (free : ∀ v ∈ root.vars, ¬ IsGenerated v)
    (valid : ∀ t ∈ data.graph none, t.isValid) :
    t ∈ (build chains root type deletes).matched data ↔
      ∃ σ : Valuation, ⟨root.under σ, .iri Rdf.type, type⟩ ∈ data.graph none ∧
        (data.graph none).Belongs chains type (root.under σ) t := by
  rw [mem_matched_iff_contributes valid]
  refine exists_congr fun σ => and_congr_right fun _ => or_congr_right ?_
  rw [← contributes_iff free]
  refine or_iff_left ?_
  rintro ⟨group, member, p, pattern, known, -⟩
  obtain ⟨v, there, open_⟩ := own_optionalGroups (σ := σ) free group member p pattern
  exact rootRow_eq_none.mp open_ (known v there)

/-- The query for a fixed root selects nothing unless the root has the type, and then exactly what
belongs to it, whichever the mode. -/
theorem matched_fixed_root (chains : PathMap) (root type : Term) (deletes : Bool) (data : Dataset)
    (valid : ∀ t ∈ data.graph none, t.isValid) :
    (⟨root, .iri Rdf.type, type⟩ ∉ data.graph none →
      (build chains (.term root) type deletes).matched data = ∅) ∧
    (⟨root, .iri Rdf.type, type⟩ ∈ data.graph none →
      ∀ t, t ∈ (build chains (.term root) type deletes).matched data ↔
        t = ⟨root, .iri Rdf.type, type⟩ ∨
        (t ∈ data.graph none ∧ t.subject = root ∧ t.predicate = .iri Dct.modified) ∨
        ∃ chain ∈ chains.values, ∃ nodes, (data.graph none).Walk root chain nodes ∧
          (t ∈ hopTriples root chain nodes ∨
            ∃ node ∈ nodes.dropLast, (data.graph none).Guards node t)) := by
  have selected : ∀ t, t ∈ (build chains (.term root) type deletes).matched data ↔
      ⟨root, .iri Rdf.type, type⟩ ∈ data.graph none ∧
        (data.graph none).Belongs chains type root t := fun t => by
    rw [mem_matched_iff (fun _ there => absurd there List.not_mem_nil) valid]
    exact ⟨fun ⟨_, answer⟩ => answer, fun answer => ⟨default, answer⟩⟩
  constructor
  · intro untyped
    refine SortedSet.ext_mem fun t => ⟨fun member => ?_, fun member => ?_⟩
    · exact absurd ((selected t).mp member).1 untyped
    · exact absurd member SortedSet.not_mem_empty
  · intro typed t
    exact (selected t).trans (and_iff_right typed)

/-- A document that an activity made. The activity has a topic, an identifier and a type. -/
def madeDocument : Dataset := .ofGraph <| .ofList
  [⟨.iri "doc", .iri Rdf.type, .iri "Document"⟩, ⟨.iri "act", .iri "made", .iri "doc"⟩,
    ⟨.iri "act", .iri "about", .iri "topic"⟩, ⟨.iri "act", .iri Mu.uuid, .plain "1"⟩,
    ⟨.iri "act", .iri Rdf.type, .iri "Activity"⟩]

/-- The topic of a document is that of the activity that made it. -/
def topicField : PathMap :=
  .ofList [(.field (.iri "topicField"), [.inverse (.iri "made"), .forward (.iri "about")])]

theorem valid_madeDocument : ∀ t ∈ madeDocument.graph none, t.isValid := by
  simp [madeDocument, Dataset.ofGraph, Dataset.graph_setGraph, Triple.isValid, Term.isIri,
    Term.isLiteral]

theorem matched_fixed_root_madeDocument : (∀ t ∈ madeDocument.graph none, t.isValid) ∧
    ⟨.iri "doc", .iri Rdf.type, .iri "Document"⟩ ∈ madeDocument.graph none ∧
    ⟨.iri "act", .iri "about", .iri "topic"⟩ ∈
      (build topicField (.term (.iri "doc")) (.iri "Document") true).matched madeDocument := by
  have member : ∀ t, t ∈ madeDocument.graph none ↔ t ∈ [_, _, _, _, _] := fun t => by
    rw [madeDocument, Dataset.ofGraph, Dataset.graph_setGraph, if_pos rfl, SortedSet.mem_ofList]
  have typed : ⟨.iri "doc", .iri Rdf.type, .iri "Document"⟩ ∈ madeDocument.graph none := by
    simp [member]
  refine ⟨valid_madeDocument, typed, ((matched_fixed_root topicField (.iri "doc") (.iri "Document")
    true madeDocument valid_madeDocument).2 typed _).mpr (.inr (.inr ⟨_, List.mem_singleton_self _,
      [.iri "act", .iri "topic"], .next ?_ ?_ (.last ?_), .inl ?_⟩))⟩
  · simp [member, Step.triple, Step.inverse]
  · exact ⟨⟨.plain "1", by simp [member]⟩, ⟨.iri "Activity", by simp [member]⟩⟩
  · simp [member, Step.triple, Step.forward]
  · simp [hopTriples, Step.triple, Step.inverse, Step.forward]

end InstanceQuery
end Formulary
