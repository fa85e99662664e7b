import Formulary.Proofs.InstanceValues

/-!
# Fields in the rows of a query

The rows of an instance query bind the variables of a field, hop by hop, to the nodes of its guarded
walks and to nothing else (`exists_row_iff`). At the last hop these are the values that are read by
following the field (`mem_follow_iff_row`).
-/

namespace Formulary
open Std

namespace InstanceQuery

variable {chains : PathMap} {chain : Chain} {index hop : Nat} {root type x : Term} {data : Dataset}

theorem node_mem_vars_fieldGroup {slot : Slot} (inside : hop < chain.length) :
    node index (hop + 1) ∈ (fieldGroup slot index chain).vars := by
  have steps : chain ≠ [] := List.ne_nil_of_length_pos (Nat.zero_lt_of_lt inside)
  refine (mem_vars_patternsFrom steps).mpr (.inr ⟨.self, hop, inside, .inl rfl, ?_⟩)
  rw [partOf_self, Nat.zero_add]

/-- Some row binds the node after a hop of a field to a term exactly if the instance has the type and
a guarded walk along the field visits the term at that hop. -/
theorem exists_row_iff (field : (chains.values.filter (!·.isEmpty))[index]? = some chain)
    (inside : hop < chain.length) :
    (∃ row ∈ data.select (bodyOf chains (.term root) type), row.get? (node index (hop + 1)) = some x) ↔
      ⟨root, .iri Rdf.type, type⟩ ∈ data.graph none ∧
        ∃ nodes, (data.graph none).Walk root chain nodes ∧ nodes[hop]? = some x := by
  have steps : chain ≠ [] := List.ne_nil_of_length_pos (Nat.zero_lt_of_lt inside)
  have asked : node index (hop + 1) ∈ (fieldGroup (.term root) index chain).vars :=
    node_mem_vars_fieldGroup inside
  have member : fieldGroup (.term root) index chain ∈ optionalGroups (.term root) chains :=
    List.mem_cons_of_mem _ (mem_fieldGroups.mpr ⟨index, chain, field, rfl⟩)
  have independent : ∀ σ, Independent (rootRow (.term root) σ) (optionalGroups (.term root) chains) :=
    fun _ => independent_optionalGroups
  constructor
  · rintro ⟨row, found, bound⟩
    obtain ⟨σ, typed, answered⟩ := mem_select_bodyOf.mp found
    refine ⟨typed, ?_⟩
    rcases ((independent σ).settled (.refl ..) answered).2.2 _ member with open_ | ⟨τ, -, holds, values⟩
    · -- The row of a fixed root binds nothing.
      have unbound := (open_ _ asked).trans (rootRow_eq_none.mpr List.not_mem_nil)
      rw [unbound] at bound
      nomatch bound
    · obtain ⟨nodes, walk, visits, -⟩ := exists_walk steps holds
      have there : hop < nodes.length := walk.length_eq ▸ inside
      refine ⟨nodes, walk, ?_⟩
      have visited : τ (node index (0 + hop + 1)) = nodes[hop] :=
        visits hop _ (List.getElem?_eq_getElem there)
      rw [Nat.zero_add] at visited
      rw [List.getElem?_eq_getElem there, ← visited, ← values _ asked, bound]
  · rintro ⟨typed, nodes, walk, visited⟩
    obtain ⟨uuid, kind, choice⟩ := (data.graph none).exists_guardChoice
    have apart : ∀ v ∈ (Slot.term root).vars, ¬ Beyond index 0 v := fun v there =>
      absurd there List.not_mem_nil
    obtain ⟨τ, -, visits, triples, -⟩ := exists_valuation (σ := default) choice walk rfl apart
    have holds : (fieldGroup (.term root) index chain).Matches (data.graph none) τ := fun p pattern =>
      (TriplePattern.holds_iff (fieldPattern_of_mem pattern).simple).mpr (triples p pattern)
    have agrees : (rootRow (.term root) default).Agrees τ :=
      agrees_rootRow_iff.mpr fun v there => absurd there List.not_mem_nil
    obtain ⟨row, answered, values⟩ :=
      (independent default).exists_answered (.refl ..) member agrees holds
    refine ⟨row, mem_select_bodyOf.mpr ⟨default, typed, answered⟩, ?_⟩
    have visited := visits hop x visited
    rw [Nat.zero_add] at visited
    rw [values _ asked, visited]

/-- For an instance of the type, the values read by following a field are what the rows bind the last
node of the field to, and the ends of its guarded walks. -/
theorem mem_follow_iff_row (chains : PathMap) (root type : Term) (deletes : Bool) (data : Dataset)
    (typed : ⟨root, .iri Rdf.type, type⟩ ∈ data.graph none) {index : Nat} {chain : Chain}
    (field : (chains.values.filter (!·.isEmpty))[index]? = some chain) :
    ∀ x, (x ∈ data.follow root chain ↔
        ∃ row ∈ data.select (build chains (.term root) type deletes).body,
          row.get? (node index chain.length) = some x) ∧
      (x ∈ data.follow root chain ↔
        ∃ nodes, (data.graph none).Walk root chain nodes ∧ nodes.getLast? = some x) := by
  intro x
  have steps := (listed_of_field field).2
  obtain ⟨hop, length⟩ := Nat.exists_eq_succ_of_ne_zero (List.length_pos_iff.mpr steps).ne'
  have inside : hop < chain.length := length ▸ hop.lt_succ_self
  refine ⟨?_, Dataset.mem_follow steps⟩
  rw [Dataset.mem_follow steps, build, length, exists_row_iff field inside, and_iff_right typed]
  refine exists_congr fun nodes => and_congr_right fun walk => ?_
  rw [List.getLast?_eq_getElem?, walk.length_eq, length, Nat.succ_sub_one]

/-- The topic of the activity is bound at the second hop. -/
theorem mem_follow_iff_row_madeDocument :
    ⟨.iri "doc", .iri Rdf.type, .iri "Document"⟩ ∈ madeDocument.graph none ∧
    (topicField.values.filter (!·.isEmpty))[0]? =
      some [.inverse (.iri "made"), .forward (.iri "about")] ∧
    ∃ row ∈ madeDocument.select (build topicField (.term (.iri "doc")) (.iri "Document") false).body,
      row.get? (node 0 2) = some (.iri "topic") := by
  have typed : ⟨.iri "doc", .iri Rdf.type, .iri "Document"⟩ ∈ madeDocument.graph none := by
    simp [madeDocument, Dataset.ofGraph, Dataset.graph_setGraph]
  have field : (topicField.values.filter (!·.isEmpty))[0]? =
      some [.inverse (.iri "made"), .forward (.iri "about")] := rfl
  have read : .iri "topic" ∈
      madeDocument.follow (.iri "doc") [.inverse (.iri "made"), .forward (.iri "about")] := by
    decide
  exact ⟨typed, field, ((mem_follow_iff_row topicField _ (.iri "Document") false madeDocument typed
    field _).1).mp read⟩

end InstanceQuery
end Formulary
