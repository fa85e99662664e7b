import Formulary.Proofs.SnapshotDelta

/-!
# Deltas of ground graphs

Between graphs without blank nodes a delta is a patch in the plain sense: it takes out what only the
old graph has and puts in what only the new one has, whatever dataset it is applied to
(`Delta.IsGround.mem_graph_apply`). Such patches compose along a sequence of snapshots, and no ground
patch between the same graphs does with less.
-/

namespace Formulary
open Std

/-- No triple of the graph has a blank node. -/
def Graph.IsGround (g : Graph) : Prop := ∀ t ∈ g, t.hasBlank = false

namespace Delta

variable {d e : Delta} {data : Dataset} {old new : Graph} {t : Triple}

structure IsGround (d : Delta) : Prop where
  removed : d.removed.IsGround
  added : d.added.IsGround

/-- No delta touches a named graph. -/
theorem graph_apply_of_ne {name : GraphName} (other : name ≠ none) :
    (d.apply data).graph name = data.graph name := by
  rw [apply, Dataset.insertMany, Dataset.graph_setGraph, if_neg other]
  by_cases empty : d.patterns.isEmpty
  · rw [if_pos empty, Dataset.graph_setGraph, if_neg other]
  · rw [if_neg empty, Dataset.graph_deleteWhere_of_ne other, Dataset.graph_setGraph, if_neg other]

namespace IsGround

variable (ground : d.IsGround)
include ground

theorem not_finds (g : Graph) (t : Triple) : ¬ d.Finds g t := by
  rintro ⟨σ, -, b, blank, -⟩
  obtain ⟨removed, blank⟩ := mem_blankRemovals.mp blank
  exact absurd (blank.symm.trans (ground.removed b removed)) (by decide)

theorem mem_groundRemovals : t ∈ d.groundRemovals ↔ t ∈ d.removed := by
  rw [Delta.mem_groundRemovals, and_iff_left_iff_imp]
  exact ground.removed t

theorem mem_graph_apply : t ∈ (d.apply data).graph none ↔
    t ∈ data.graph none ∧ t ∉ d.removed ∨ t ∈ d.added := by
  have notFound := ground.not_finds ((data.graph none).diff (.ofList d.groundRemovals)) t
  rw [Delta.mem_graph_apply, ground.mem_groundRemovals]
  simp only [notFound, and_false, not_false_eq_true, and_true]

/-- Where nothing is both removed and added, a second application has nothing left to do. -/
theorem apply_apply (apart : ∀ t ∈ d.removed, t ∉ d.added) :
    d.apply (d.apply data) = d.apply data := by
  refine Dataset.ext_graph fun name => ?_
  by_cases default : name = none
  · subst default
    refine SortedSet.ext_mem fun t => ?_
    rw [ground.mem_graph_apply, ground.mem_graph_apply]
    have := apart t
    tauto
  · rw [graph_apply_of_ne default]

/-- A ground delta leads from one graph to another exactly if it does so for each triple. -/
theorem apply_ofGraph_eq_iff : d.apply (.ofGraph old) = .ofGraph new ↔
    ∀ t, (t ∈ old ∧ t ∉ d.removed ∨ t ∈ d.added) ↔ t ∈ new := by
  constructor
  · intro same t
    have here : t ∈ (d.apply (.ofGraph old)).graph none ↔ t ∈ (Dataset.ofGraph new).graph none := by
      rw [same]
    rwa [ground.mem_graph_apply, Dataset.graph_ofGraph, Dataset.graph_ofGraph, if_pos rfl,
      if_pos rfl] at here
  · intro same
    refine Dataset.ext_graph fun name => ?_
    by_cases default : name = none
    · subst default
      refine SortedSet.ext_mem fun t => ?_
      rw [ground.mem_graph_apply, Dataset.graph_ofGraph, Dataset.graph_ofGraph, if_pos rfl,
        if_pos rfl, same]
    · rw [graph_apply_of_ne default, Dataset.graph_ofGraph, Dataset.graph_ofGraph, if_neg default,
        if_neg default]

end IsGround

/-! ## The delta between two graphs -/

theorem between_ofGraph : between (.ofGraph old) (.ofGraph new) = ⟨old.diff new, new.diff old⟩ := by
  have whole : ∀ g : Graph, (Dataset.ofGraph g).union = g := fun g =>
    SortedSet.ext_mem fun t => Dataset.mem_union_ofGraph
  rw [between, whole, whole]

theorem isGround_diff (groundOld : old.IsGround) (groundNew : new.IsGround) :
    IsGround ⟨old.diff new, new.diff old⟩ where
  removed t member := groundOld t (SortedSet.mem_diff.mp member).1
  added t member := groundNew t (SortedSet.mem_diff.mp member).1

/-- The difference of two graphs leads from one to the other. -/
theorem apply_diff (groundOld : old.IsGround) (groundNew : new.IsGround) :
    (⟨old.diff new, new.diff old⟩ : Delta).apply (.ofGraph old) = .ofGraph new := by
  refine (isGround_diff groundOld groundNew).apply_ofGraph_eq_iff.mpr fun t => ?_
  simp only [SortedSet.mem_diff]
  tauto

/-- Any ground delta that leads from one graph to another holds their difference. -/
theorem diff_within (ground : e.IsGround) (reaches : e.apply (.ofGraph old) = .ofGraph new) :
    (∀ t ∈ old.diff new, t ∈ e.removed) ∧ ∀ t ∈ new.diff old, t ∈ e.added := by
  have reached := ground.apply_ofGraph_eq_iff.mp reaches
  constructor
  · intro t member
    obtain ⟨before, notAfter⟩ := SortedSet.mem_diff.mp member
    by_contra kept
    exact notAfter ((reached t).mp (.inl ⟨before, kept⟩))
  · intro t member
    obtain ⟨after, notBefore⟩ := SortedSet.mem_diff.mp member
    rcases (reached t).mpr after with ⟨before, -⟩ | added
    · exact absurd before notBefore
    · exact added

/-! ## Sequences of snapshots -/

/-- The deltas from a snapshot to the next one, along a sequence. -/
def along : Graph → List Graph → List Delta
  | _, [] => []
  | first, next :: later => between (.ofGraph first) (.ofGraph next) :: along next later

/-- Applies deltas one after another. -/
def applyAll (deltas : List Delta) (data : Dataset) : Dataset :=
  deltas.foldl (fun data d => d.apply data) data

theorem applyAll_along {first : Graph} {later : List Graph} (ground : first.IsGround)
    (grounds : ∀ g ∈ later, g.IsGround) :
    applyAll (along first later) (.ofGraph first) = .ofGraph (later.getLastD first) := by
  induction later generalizing first with
  | nil => rfl
  | cons next later ih =>
    obtain ⟨groundNext, grounds⟩ := List.forall_mem_cons.mp grounds
    have step : applyAll (along first (next :: later)) (.ofGraph first) =
        applyAll (along next later)
          ((between (.ofGraph first) (.ofGraph next)).apply (.ofGraph first)) := rfl
    rw [step, between_ofGraph, apply_diff ground groundNext, ih groundNext grounds,
      List.getLastD_cons]

/-- The delta between two ground graphs is their difference. On every dataset it changes the default
graph alone, and there takes out what is removed and puts in what is added. So it leads from the old
graph to the new one, twice is once, the delta back undoes it, the deltas along a sequence of graphs
lead to the last one, and every ground delta with the same effect on the old graph holds this one. -/
theorem between_ground_exact (old new : Graph) (groundOld : old.IsGround) (groundNew : new.IsGround) :
    let d := between (.ofGraph old) (.ofGraph new)
    d.removed = old.diff new ∧ d.added = new.diff old ∧ (∀ t ∈ d.removed, t ∉ d.added) ∧
    (∀ data : Dataset, (∀ name, name ≠ none → (d.apply data).graph name = data.graph name) ∧
      ∀ t, t ∈ (d.apply data).graph none ↔ t ∈ data.graph none ∧ t ∉ d.removed ∨ t ∈ d.added) ∧
    d.apply (.ofGraph old) = .ofGraph new ∧
    (∀ data : Dataset, d.apply (d.apply data) = d.apply data) ∧
    (between (.ofGraph new) (.ofGraph old)).apply (d.apply (.ofGraph old)) = .ofGraph old ∧
    (∀ later : List Graph, (∀ g ∈ later, g.IsGround) →
      applyAll (along old later) (.ofGraph old) = .ofGraph (later.getLastD old)) ∧
    ∀ e : Delta, e.IsGround → e.apply (.ofGraph old) = .ofGraph new →
      (∀ t ∈ d.removed, t ∈ e.removed) ∧ ∀ t ∈ d.added, t ∈ e.added := by
  intro d
  have difference : d = ⟨old.diff new, new.diff old⟩ := between_ofGraph
  have ground : d.IsGround := difference ▸ isGround_diff groundOld groundNew
  have apart : ∀ t ∈ d.removed, t ∉ d.added := by
    intro t removed added
    rw [difference, SortedSet.mem_diff] at removed added
    exact added.2 removed.1
  have reaches : d.apply (.ofGraph old) = .ofGraph new := difference ▸ apply_diff groundOld groundNew
  refine ⟨by rw [difference], by rw [difference], apart, fun data => ⟨?_, ?_⟩, reaches, ?_, ?_, ?_, ?_⟩
  · exact fun name other => graph_apply_of_ne other
  · exact fun t => ground.mem_graph_apply
  · exact fun data => ground.apply_apply apart
  · rw [reaches, between_ofGraph]
    exact apply_diff groundNew groundOld
  · exact fun later grounds => applyAll_along groundOld grounds
  · intro e groundOther same
    rw [difference]
    exact diff_within groundOther same

/-- A title that is replaced, with another triple that stays. -/
theorem between_ground_exact_titles :
    let kept : Triple := ⟨.iri "doc", .iri "creator", .iri "alice"⟩
    let old : Graph := .ofList [kept, ⟨.iri "doc", .iri "title", .plain "Old"⟩]
    let new : Graph := .ofList [kept, ⟨.iri "doc", .iri "title", .plain "New"⟩]
    old.IsGround ∧ new.IsGround ∧
      (between (.ofGraph old) (.ofGraph new)).removed =
        .ofList [⟨.iri "doc", .iri "title", .plain "Old"⟩] ∧
      (between (.ofGraph old) (.ofGraph new)).apply (.ofGraph old) = .ofGraph new := by
  intro kept old new
  have groundOld : old.IsGround := by
    simp [Graph.IsGround, old, kept, Triple.hasBlank, Term.isBlank, Term.plain]
  have groundNew : new.IsGround := by
    simp [Graph.IsGround, new, kept, Triple.hasBlank, Term.isBlank, Term.plain]
  obtain ⟨removed, -, -, -, reaches, -⟩ := between_ground_exact old new groundOld groundNew
  refine ⟨groundOld, groundNew, removed.trans (SortedSet.ext_mem fun t => ?_), reaches⟩
  simp only [SortedSet.mem_diff, SortedSet.mem_ofList, List.mem_pair, List.mem_singleton, old, new]
  constructor
  · rintro ⟨rfl | rfl, missing⟩
    · exact absurd (.inl rfl) missing
    · rfl
  · rintro rfl
    exact ⟨.inr rfl, by simp [kept, Term.plain]⟩

end Delta
end Formulary
