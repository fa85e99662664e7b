import Formulary.Proofs.AnchoredOptionals

/-!
# Instance queries on a SPARQL engine

The rows of an instance query against the solutions of its body. For a fixed root they are the same.
For a variable root the optional groups, found on their own, bind the root: the first part that
anything in the data has decides which instances keep any part (`rows_eq_solutions`).
-/

namespace Formulary
open Std

/-- What an instance may have: the time of its last change (`none`), or values of a field. -/
def Graph.HasPart (g : Graph) (root : Term) : Option Chain → Prop
  | none => ∃ time, ⟨root, .iri Dct.modified, time⟩ ∈ g
  | some chain => ∃ nodes, g.Walk root chain nodes

namespace InstanceQuery

variable {root : Slot} {chains : PathMap} {type : Term} {data : Dataset} {g : Graph} {σ : Valuation}
  {row : Solution}

/-- The parts that a query asks for, in the order of its optional groups. -/
def parts (chains : PathMap) : List (Option Chain) :=
  none :: (chains.values.filter (!·.isEmpty)).map some

/-- The first of the parts that anything in the data has. -/
def IsLeadingPart (g : Graph) (chains : PathMap) (lead : Option Chain) : Prop :=
  ∃ before after, parts chains = before ++ lead :: after ∧ (∃ x, g.HasPart x lead) ∧
    ∀ part ∈ before, ∀ x, ¬ g.HasPart x part

/-! ## The optional groups -/

/-- An optional group asks for the time of the last change, or for the values of a field with steps. -/
theorem eq_of_mem_optionalGroups {group : Group} (member : group ∈ optionalGroups root chains) :
    group = modifiedGroup root ∨ ∃ index step rest,
      (chains.values.filter (!·.isEmpty))[index]? = some (step :: rest) ∧
        group = fieldGroup root index (step :: rest) := by
  rcases List.mem_cons.mp member with same | ofField
  · exact .inl same
  · obtain ⟨index, chain, field, rfl⟩ := mem_fieldGroups.mp ofField
    obtain ⟨step, rest, rfl⟩ := List.exists_cons_of_ne_nil (listed_of_field field).2
    exact .inr ⟨index, step, rest, field, rfl⟩

theorem exists_pattern_of_mem_optionalGroups {group : Group}
    (member : group ∈ optionalGroups root chains) :
    ∃ p ∈ group.patterns, ∀ v ∈ root.vars, v ∈ p.vars := by
  rcases eq_of_mem_optionalGroups member with rfl | ⟨index, step, rest, -, rfl⟩
  · exact ⟨_, List.mem_cons_self, fun v there => by simp [there]⟩
  · exact ⟨_, first_mem_patternsFrom, fun v there => mem_vars_pattern.mpr (.inl there)⟩

theorem anchored_optionalGroups (free : ∀ v ∈ root.vars, ¬ IsGenerated v) :
    Anchored root.vars (optionalGroups root chains) where
  plain := plain_optionalGroups
  apart := (independent_optionalGroups (σ := default)).apart.imp fun shared v one two =>
    not_not.mp (mt rootRow_eq_none.mpr (shared v one two))
  common group member v there := by
    obtain ⟨p, pattern, asks⟩ := exists_pattern_of_mem_optionalGroups member
    exact Group.vars_of_mem pattern (asks v there)
  own group member := by
    obtain ⟨p, pattern, -⟩ := exists_pattern_of_mem_optionalGroups member
    obtain ⟨v, there, open_⟩ := own_optionalGroups (σ := default) free group member p pattern
    exact ⟨v, Group.vars_of_mem pattern there, rootRow_eq_none.mp open_⟩

theorem binds_rootRow {v : Variable} : (rootRow root σ).Binds v ↔ v ∈ root.vars := by
  rw [Solution.Binds, ne_eq, rootRow_eq_none, not_not]

/-! ## Rows and solutions, root by root -/

theorem conjunction_nil : conjunction g [] = {∅} := Set.ext fun row => by
  rw [mem_conjunction_iff, Set.mem_singleton_iff]
  simp [Solution.assign]

/-- The solutions of the body: for every root that has the type, the optional groups, found on their
own, are joined on the left. -/
theorem mem_solutions_bodyOf : row ∈ (bodyOf chains root type).solutions g ↔
    ∃ σ : Valuation, ⟨root.under σ, .iri Rdf.type, type⟩ ∈ g ∧
      row ∈ leftJoin {rootRow root σ} (Group.joinOptionals g (optionalGroups root chains) {∅}) := by
  have unfolded : (bodyOf chains root type).solutions g =
      leftJoin (conjunction g [⟨root, .term (.iri Rdf.type), .term type⟩])
        (Group.joinOptionals g (optionalGroups root chains) {∅}) := by
    rw [bodyOf, Group.solutions, Group.joinOptionals, Group.joinOptionals, Group.solutions,
      conjunction_nil, optionalGroups]
  have typed : ∀ a, a ∈ conjunction g [⟨root, .term (.iri Rdf.type), .term type⟩] ↔
      ∃ σ : Valuation, ⟨root.under σ, .iri Rdf.type, type⟩ ∈ g ∧ a = rootRow root σ := fun a => by
    simp [mem_conjunction_iff, rootRow]
  rw [unfolded, mem_leftJoin]
  simp only [typed]
  constructor
  · rintro ⟨_, ⟨σ, inside, rfl⟩, found⟩
    exact ⟨σ, inside, found⟩
  · rintro ⟨σ, inside, found⟩
    exact ⟨_, ⟨σ, inside, rfl⟩, found⟩

/-- The rows are the solutions exactly if they are so for every root of the type. -/
theorem same_iff_forall_root : (∀ row, row ∈ data.select (bodyOf chains root type) ↔
      row ∈ (bodyOf chains root type).solutions (data.graph none)) ↔
    ∀ σ : Valuation, ⟨root.under σ, .iri Rdf.type, type⟩ ∈ data.graph none →
      ∀ row, row ∈ Group.evaluateOptionals (data.graph none) (optionalGroups root chains)
          [rootRow root σ] ↔
        row ∈ leftJoin {rootRow root σ}
          (Group.joinOptionals (data.graph none) (optionalGroups root chains) {∅}) := by
  have rooted : ∀ σ row, row ∈ Group.evaluateOptionals (data.graph none) (optionalGroups root chains)
      [rootRow root σ] → (rootRow root σ).Extends row := fun σ row found =>
    (independent_optionalGroups.settled (.refl ..) found).1
  have joined : ∀ (σ : Valuation) (right : Set Solution) (row : Solution),
      row ∈ leftJoin {rootRow root σ} right → (rootRow root σ).Extends row := fun σ right row found => by
    rcases mem_leftJoin_singleton.mp found with ⟨b, -, -, rfl⟩ | ⟨-, rfl⟩
    · exact Solution.extends_merge
    · exact .refl _
  -- A row tells its root.
  have unique : ∀ (σ τ : Valuation) (row : Solution), (rootRow root σ).Extends row →
      (rootRow root τ).Extends row → rootRow root σ = rootRow root τ := by
    intro σ τ row one two
    refine Solution.assign_congr fun v there => ?_
    have first := one v (σ v) (by rw [get?_rootRow, if_pos there])
    have second := two v (τ v) (by rw [get?_rootRow, if_pos there])
    exact Option.some.inj (first.symm.trans second)
  simp only [mem_select_bodyOf, mem_solutions_bodyOf]
  constructor
  · intro same σ typed row
    constructor
    · intro found
      obtain ⟨τ, -, there⟩ := (same row).mp ⟨σ, typed, found⟩
      rwa [unique σ τ row (rooted σ row found) (joined τ _ row there)]
    · intro found
      obtain ⟨τ, -, there⟩ := (same row).mpr ⟨σ, typed, found⟩
      rwa [unique σ τ row (joined σ _ row found) (rooted τ row there)]
  · exact fun same row => exists_congr fun σ => and_congr_right fun typed => same σ typed row

/-- The rows are the solutions exactly if, for every root of the type, the leading group has an answer
wherever some group has one. -/
theorem same_iff_of_leads (free : ∀ v ∈ root.vars, ¬ IsGenerated v) :
    (∀ row, row ∈ data.select (bodyOf chains root type) ↔
      row ∈ (bodyOf chains root type).solutions (data.graph none)) ↔
    ∀ σ : Valuation, ⟨root.under σ, .iri Rdf.type, type⟩ ∈ data.graph none →
      ∀ lead, Leads (data.graph none) (optionalGroups root chains) lead →
        (∃ group ∈ optionalGroups root chains, Answers (data.graph none) (rootRow root σ) group) →
          Answers (data.graph none) (rootRow root σ) lead := by
  rw [same_iff_forall_root]
  exact forall_congr' fun σ => imp_congr_right fun _ =>
    (anchored_optionalGroups free).same_rows_iff fun _ => binds_rootRow

/-! ## Groups and parts -/

/-- The optional group of a part. -/
def partGroup (root : Slot) : Nat → Option Chain → Group
  | _, none => modifiedGroup root
  | index, some chain => fieldGroup root (index - 1) chain

theorem optionalGroups_eq : optionalGroups root chains = (parts chains).mapIdx (partGroup root) := by
  rw [parts, List.mapIdx_cons, optionalGroups, fieldGroups]
  refine congrArg _ (Eq.symm (List.mapIdx_eq_iff.mpr fun index => ?_))
  rw [List.getElem?_mapIdx, List.getElem?_map, Option.map_map]
  rfl

/-- The group of a part is answered for a root that has the part. -/
theorem answers_partGroup_iff {v : Variable} (free : ¬ IsGenerated v) {index : Nat}
    {part : Option Chain} (member : part ∈ parts chains) :
    Answers g (rootRow (.var v) σ) (partGroup (.var v) index part) ↔ g.HasPart (σ v) part := by
  have agrees : ∀ τ : Valuation, (rootRow (.var v) σ).Agrees τ ↔ τ v = σ v := fun τ => by
    simp [agrees_rootRow_iff]
  simp only [Answers, agrees]
  cases part with
  | none =>
    constructor
    · rintro ⟨τ, same, holds⟩
      have edge : ⟨τ v, .iri Dct.modified, τ modified⟩ ∈ g := holds _ List.mem_cons_self
      exact ⟨τ modified, same ▸ edge⟩
    · rintro ⟨time, edge⟩
      have other : v ≠ modified := fun same => free (.inl same)
      refine ⟨Function.update σ modified time, Function.update_of_ne other .., fun p pattern => ?_⟩
      rw [List.mem_singleton.mp pattern, TriplePattern.holds_term, Slot.under_var, Slot.under_var,
        Function.update_of_ne other]
      rw [show (⟨"modified"⟩ : Variable) = modified from rfl, Function.update_self]
      exact edge
  | some chain =>
    have steps : chain ≠ [] := fun empty => by simp [parts, empty] at member
    have apart : ∀ w ∈ (Slot.var v).vars, ¬ Beyond (index - 1) 0 w := fun w there beyond => by
      obtain ⟨part, later, -, same⟩ := beyond
      rw [List.mem_singleton.mp there] at same
      exact free (.inr ⟨part, _, later, same⟩)
    constructor
    · rintro ⟨τ, same, matched⟩
      have holds : ∀ p ∈ patternsFrom (index - 1) (.var v) 0 chain, p.Holds g τ := matched
      obtain ⟨nodes, walk, -⟩ := exists_walk steps holds
      exact ⟨nodes, same ▸ walk⟩
    · rintro ⟨nodes, walk⟩
      obtain ⟨uuid, type, choice⟩ := g.exists_guardChoice
      obtain ⟨τ, outside, -, triples, -⟩ := exists_valuation (σ := σ) choice walk rfl apart
      refine ⟨τ, outside v (apart v (List.mem_singleton_self v)), fun p pattern => ?_⟩
      exact (TriplePattern.holds_iff (fieldPattern_of_mem pattern).simple).mpr (triples p pattern)

theorem answers_partGroup_empty_iff {v : Variable} (free : ¬ IsGenerated v) {index : Nat}
    {part : Option Chain} (member : part ∈ parts chains) :
    Answers g ∅ (partGroup (.var v) index part) ↔ ∃ x, g.HasPart x part := by
  constructor
  · rintro ⟨τ, -, holds⟩
    exact ⟨τ v, (answers_partGroup_iff free member).mp
      ⟨τ, agrees_rootRow_iff.mpr fun _ _ => rfl, holds⟩⟩
  · rintro ⟨x, has⟩
    exact Answers.unseeded ((answers_partGroup_iff (σ := fun _ => x) free member).mpr has)

theorem mem_optionalGroups_iff {group : Group} : group ∈ optionalGroups root chains ↔
    ∃ index part, (parts chains)[index]? = some part ∧ group = partGroup root index part := by
  simp only [optionalGroups_eq, List.mem_iff_getElem?, List.getElem?_mapIdx, Option.map_eq_some_iff]
  exact exists_congr fun index => exists_congr fun part => and_congr_right fun _ => eq_comm

theorem exists_answers_iff {v : Variable} (free : ¬ IsGenerated v) :
    (∃ group ∈ optionalGroups (.var v) chains, Answers g (rootRow (.var v) σ) group) ↔
      ∃ part ∈ parts chains, g.HasPart (σ v) part := by
  constructor
  · rintro ⟨group, member, answers⟩
    obtain ⟨index, part, found, rfl⟩ := mem_optionalGroups_iff.mp member
    have listed := List.mem_of_getElem? found
    exact ⟨part, listed, (answers_partGroup_iff free listed).mp answers⟩
  · rintro ⟨part, listed, has⟩
    obtain ⟨index, found⟩ := List.mem_iff_getElem?.mp listed
    exact ⟨_, mem_optionalGroups_iff.mpr ⟨index, part, found, rfl⟩,
      (answers_partGroup_iff free listed).mpr has⟩

theorem IsLeadingPart.mem {lead : Option Chain} (leads : IsLeadingPart g chains lead) :
    lead ∈ parts chains := by
  obtain ⟨before, after, whole, -⟩ := leads
  exact whole ▸ List.mem_append_right _ List.mem_cons_self

theorem exists_isLeadingPart {v : Variable} (free : ¬ IsGenerated v) {lead : Group}
    (leads : Leads g (optionalGroups (.var v) chains) lead) :
    ∃ index part, lead = partGroup (.var v) index part ∧ IsLeadingPart g chains part := by
  obtain ⟨before, after, split, found, silent⟩ := leads
  rw [optionalGroups_eq] at split
  obtain ⟨early, rest, whole, rfl, tail⟩ := List.mapIdx_eq_append_iff.mp split
  obtain ⟨part, late, rfl, rfl, -⟩ := List.mapIdx_eq_cons_iff.mp tail
  have here : part ∈ parts chains := whole ▸ List.mem_append_right _ List.mem_cons_self
  refine ⟨_, part, rfl, early, late, whole, (answers_partGroup_empty_iff free here).mp found,
    fun other member x has => ?_⟩
  have listed : other ∈ parts chains := whole ▸ List.mem_append_left _ member
  obtain ⟨position, inside, rfl⟩ := List.mem_iff_getElem.mp member
  exact silent _ (List.mem_mapIdx.mpr ⟨position, inside, rfl⟩)
    ((answers_partGroup_empty_iff free listed).mpr ⟨x, has⟩)

theorem IsLeadingPart.leads {v : Variable} (free : ¬ IsGenerated v) {lead : Option Chain}
    (leading : IsLeadingPart g chains lead) :
    ∃ index, Leads g (optionalGroups (.var v) chains) (partGroup (.var v) index lead) := by
  have here := leading.mem
  obtain ⟨before, after, whole, found, silent⟩ := leading
  refine ⟨0 + before.length, before.mapIdx (partGroup (.var v)),
    after.mapIdx fun index => partGroup (.var v) (index + 1 + before.length), ?_,
    (answers_partGroup_empty_iff free here).mpr found, fun group member answers => ?_⟩
  · rw [optionalGroups_eq, whole, List.mapIdx_append, List.mapIdx_cons]
  · obtain ⟨position, inside, rfl⟩ := List.mem_mapIdx.mp member
    have listed : before[position] ∈ parts chains :=
      whole ▸ List.mem_append_left _ (List.getElem_mem inside)
    obtain ⟨x, has⟩ := (answers_partGroup_empty_iff free listed).mp answers
    exact silent _ (List.getElem_mem inside) x has

/-! ## The same rows -/

/-- For a fixed root the rows are the solutions. -/
theorem same_of_fixed_root (root : Term) : ∀ row, row ∈ data.select (bodyOf chains (.term root) type) ↔
    row ∈ (bodyOf chains (.term root) type).solutions (data.graph none) := by
  refine (same_iff_of_leads fun v there => absurd there List.not_mem_nil).mpr ?_
  -- The row of a fixed root binds nothing, so that the leading group answers it.
  rintro σ - lead ⟨before, after, -, found, -⟩ -
  exact found

/-- For a variable root the rows are the solutions exactly if every instance that has any part has the
leading one. -/
theorem same_iff_of_variable_root {v : Variable} (free : ¬ IsGenerated v) :
    (∀ row, row ∈ data.select (bodyOf chains (.var v) type) ↔
      row ∈ (bodyOf chains (.var v) type).solutions (data.graph none)) ↔
    ∀ lead, IsLeadingPart (data.graph none) chains lead →
      ∀ x, ⟨x, .iri Rdf.type, type⟩ ∈ data.graph none →
        (∃ part ∈ parts chains, (data.graph none).HasPart x part) → (data.graph none).HasPart x lead := by
  have open_ : ∀ w ∈ (Slot.var v).vars, ¬ IsGenerated w := fun w there =>
    List.mem_singleton.mp there ▸ free
  rw [same_iff_of_leads open_]
  constructor
  · intro same lead leading x typed has
    obtain ⟨index, leads⟩ := leading.leads free
    exact (answers_partGroup_iff (σ := fun _ => x) free leading.mem).mp
      (same (fun _ => x) typed _ leads ((exists_answers_iff free).mpr has))
  · intro led σ typed lead leads answered
    obtain ⟨index, part, rfl, leading⟩ := exists_isLeadingPart free leads
    exact (answers_partGroup_iff free leading.mem).mpr
      (led part leading (σ v) typed ((exists_answers_iff free).mp answered))

/-- For a fixed root, the rows of an instance query are the solutions of its body, and it selects what
the template makes of them. For a variable root the rows are the solutions exactly if every instance
that has any part has the leading one. -/
theorem rows_eq_solutions (chains : PathMap) (type : Term) (deletes : Bool) (data : Dataset) :
    (∀ root : Term, let query := build chains (.term root) type deletes
      (∀ row, row ∈ data.select query.body ↔ row ∈ query.body.solutions (data.graph none)) ∧
        ∀ t, t ∈ query.matched data ↔ ∃ row ∈ query.body.solutions (data.graph none),
          ∃ p ∈ query.template, p.instantiate? row = some t) ∧
    ∀ v, ¬ IsGenerated v → let query := build chains (.var v) type deletes
      ((∀ row, row ∈ data.select query.body ↔ row ∈ query.body.solutions (data.graph none)) ↔
        ∀ lead, IsLeadingPart (data.graph none) chains lead →
          ∀ x, ⟨x, .iri Rdf.type, type⟩ ∈ data.graph none →
            (∃ part ∈ parts chains, (data.graph none).HasPart x part) →
              (data.graph none).HasPart x lead) := by
  constructor
  · intro root query
    have same : ∀ row, row ∈ data.select query.body ↔ row ∈ query.body.solutions (data.graph none) :=
      same_of_fixed_root root
    refine ⟨same, fun t => ?_⟩
    simp only [matched, Dataset.construct, mem_instantiateAll, same]
  · intro v free query
    exact same_iff_of_variable_root free

theorem not_isGenerated_instance : ¬ IsGenerated ⟨"instance"⟩ := fun generated =>
  absurd (head?_of_isGenerated generated) (by simp)

theorem mem_madeDocument {t : Triple} : t ∈ madeDocument.graph none ↔
    t = ⟨.iri "doc", .iri Rdf.type, .iri "Document"⟩ ∨ t = ⟨.iri "act", .iri "made", .iri "doc"⟩ ∨
      t = ⟨.iri "act", .iri "about", .iri "topic"⟩ ∨ t = ⟨.iri "act", .iri Mu.uuid, .plain "1"⟩ ∨
      t = ⟨.iri "act", .iri Rdf.type, .iri "Activity"⟩ := by
  simp [madeDocument, Dataset.ofGraph, Dataset.graph_setGraph]

/-- The only document has a topic, and nothing has the time of its last change. -/
theorem rows_eq_solutions_madeDocument : ¬ IsGenerated ⟨"instance"⟩ ∧ ∀ row,
    row ∈ madeDocument.select
        (build topicField (.var ⟨"instance"⟩) (.iri "Document") false).body ↔
      row ∈ (build topicField (.var ⟨"instance"⟩) (.iri "Document") false).body.solutions
        (madeDocument.graph none) := by
  refine ⟨not_isGenerated_instance, ((rows_eq_solutions topicField (.iri "Document") false
    madeDocument).2 _ not_isGenerated_instance).mpr ?_⟩
  intro lead leading x typed _
  obtain rfl : x = .iri "doc" := by simpa [mem_madeDocument, Rdf.type, Mu.uuid] using typed
  have asked : parts topicField = [none, some [.inverse (.iri "made"), .forward (.iri "about")]] := rfl
  have listed := leading.mem
  obtain ⟨before, after, -, ⟨y, has⟩, -⟩ := leading
  rcases List.mem_pair.mp (asked ▸ listed) with rfl | rfl
  · obtain ⟨time, dated⟩ := has
    simp [mem_madeDocument, Dct.modified, Rdf.type, Mu.uuid] at dated
  · refine ⟨[.iri "act", .iri "topic"], .next ?_ ⟨⟨.plain "1", ?_⟩, ⟨.iri "Activity", ?_⟩⟩ (.last ?_)⟩
    all_goals simp [mem_madeDocument, Step.triple, Step.inverse, Step.forward]

/-! ### Two instances -/

/-- A document with the time of its last change, and one with a title. -/
def twoDocuments : Dataset := .ofGraph <| .ofList
  [⟨.iri "dated", .iri Rdf.type, .iri "Document"⟩, ⟨.iri "dated", .iri Dct.modified, .plain "2024"⟩,
    ⟨.iri "titled", .iri Rdf.type, .iri "Document"⟩, ⟨.iri "titled", .iri "title", .plain "Minutes"⟩]

def titleField : PathMap := .ofList [(.field (.iri "titleField"), [.forward (.iri "title")])]

theorem mem_twoDocuments {t : Triple} : t ∈ twoDocuments.graph none ↔
    t = ⟨.iri "dated", .iri Rdf.type, .iri "Document"⟩ ∨
      t = ⟨.iri "dated", .iri Dct.modified, .plain "2024"⟩ ∨
      t = ⟨.iri "titled", .iri Rdf.type, .iri "Document"⟩ ∨
      t = ⟨.iri "titled", .iri "title", .plain "Minutes"⟩ := by
  simp [twoDocuments, Dataset.ofGraph, Dataset.graph_setGraph]

/-- A title is lost where another document has the time of its last change: on its own, the optional
group of the titles is joined to dated documents only. -/
theorem rows_ne_solutions_of_variable_root : ¬ ∀ (chains : PathMap) (root : Slot) (type : Term)
    (deletes : Bool) (data : Dataset), (∀ v, root = .var v → ¬ IsGenerated v) →
    ∀ row, row ∈ data.select (build chains root type deletes).body ↔
      row ∈ (build chains root type deletes).body.solutions (data.graph none) := by
  intro same
  have free : ∀ v, Slot.var ⟨"instance"⟩ = .var v → ¬ IsGenerated v := fun v here =>
    Slot.var.inj here ▸ not_isGenerated_instance
  have led := (same_iff_of_variable_root not_isGenerated_instance).mp
    (same titleField (.var ⟨"instance"⟩) (.iri "Document") false twoDocuments free)
  have leading : IsLeadingPart (twoDocuments.graph none) titleField none :=
    ⟨[], _, rfl, ⟨.iri "dated", .plain "2024", mem_twoDocuments.mpr (by simp)⟩,
      fun _ member => absurd member List.not_mem_nil⟩
  have title : (twoDocuments.graph none).HasPart (.iri "titled") (some [.forward (.iri "title")]) :=
    ⟨[.plain "Minutes"], .last (mem_twoDocuments.mpr (by simp [Step.triple, Step.forward]))⟩
  obtain ⟨time, dated⟩ := led none leading (.iri "titled") (mem_twoDocuments.mpr (by simp))
    ⟨_, List.mem_cons_of_mem _ List.mem_cons_self, title⟩
  exact absurd (mem_twoDocuments.mp dated) (by simp [Dct.modified, Rdf.type])

end InstanceQuery
end Formulary
