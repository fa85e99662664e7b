import Formulary.Proofs.InstanceSelection

/-!
# Extraction and deletion

Deleting an instance takes out of the default graph exactly what extracting it selects, and leaves
nothing of it for either.
-/

namespace Formulary
open Std

namespace InstanceQuery

/-- Without a typed root nothing is selected. -/
theorem matched_eq_empty {chains : PathMap} {root : Slot} {type : Term} {deletes : Bool}
    {data : Dataset} (free : ∀ v ∈ root.vars, ¬ IsGenerated v)
    (valid : ∀ t ∈ data.graph none, t.isValid)
    (untyped : ∀ σ : Valuation, ⟨root.under σ, .iri Rdf.type, type⟩ ∉ data.graph none) :
    (build chains root type deletes).matched data = ∅ :=
  SortedSet.ext_mem fun t => by
    rw [mem_matched_iff free valid]
    exact ⟨fun ⟨σ, typed, _⟩ => absurd typed (untyped σ),
      fun member => absurd member SortedSet.not_mem_empty⟩

/-- Extraction selects triples of the data; deletion gives exactly these and takes exactly these out
of the default graph; all other graphs stay, and afterwards neither selects anything. -/
theorem extraction_deletion_agree (chains : PathMap) (root : Slot) (type : Term) (data : Dataset)
    (free : ∀ v, root = .var v → ¬ IsGenerated v) (valid : ∀ t ∈ data.graph none, t.isValid) :
    let extract := build chains root type false
    let delete := build chains root type true
    let (removed, after) := delete.execute data
    (∀ t ∈ extract.matched data, t ∈ data.graph none) ∧
    removed = extract.matched data ∧
    (∀ t, t ∈ after.graph none ↔ t ∈ data.graph none ∧ t ∉ extract.matched data) ∧
    (∀ name, name ≠ none → after.graph name = data.graph name) ∧
    extract.matched after = ∅ ∧ delete.matched after = ∅ := by
  intro extract delete
  have free : ∀ v ∈ root.vars, ¬ IsGenerated v := fun v there => by
    cases root with
    | var w => exact List.mem_singleton.mp there ▸ free w rfl
    | term => exact absurd there List.not_mem_nil
  have within : ∀ t ∈ extract.matched data, t ∈ data.graph none := fun t member => by
    obtain ⟨σ, typed, belongs⟩ := (mem_matched_iff free valid).mp member
    exact belongs.mem typed
  let after := (data.deleteWhere delete.template delete.body).2
  have left : ∀ t, t ∈ after.graph none ↔ t ∈ data.graph none ∧ t ∉ extract.matched data :=
    fun _ => Dataset.mem_graph_deleteWhere
  have validAfter : ∀ t ∈ after.graph none, t.isValid := fun t member => valid t ((left t).mp member).1
  -- The type of every instance was selected, so no root has it any more.
  have untyped : ∀ σ : Valuation, ⟨root.under σ, .iri Rdf.type, type⟩ ∉ after.graph none := by
    intro σ typed
    obtain ⟨before, kept⟩ := (left _).mp typed
    exact kept ((mem_matched_iff free valid).mpr ⟨σ, before, .inl rfl⟩)
  exact ⟨within, Dataset.deleteWhere_fst within, left, fun _ => Dataset.graph_deleteWhere_of_ne,
    matched_eq_empty free validAfter untyped, matched_eq_empty free validAfter untyped⟩

theorem extraction_deletion_agree_madeDocument :
    (∀ v, Slot.var ⟨"instance"⟩ = .var v → ¬ IsGenerated v) ∧
    (∀ t ∈ madeDocument.graph none, t.isValid) ∧
    ((build topicField (.var ⟨"instance"⟩) (.iri "Document") true).execute madeDocument).1 =
      (build topicField (.var ⟨"instance"⟩) (.iri "Document") false).matched madeDocument := by
  have free : ∀ v, Slot.var ⟨"instance"⟩ = .var v → ¬ IsGenerated v := by
    rintro v same generated
    obtain rfl := Slot.var.inj same
    exact absurd (head?_of_isGenerated generated) (by simp)
  exact ⟨free, valid_madeDocument,
    (extraction_deletion_agree topicField _ _ madeDocument free valid_madeDocument).2.1⟩

end InstanceQuery
end Formulary
