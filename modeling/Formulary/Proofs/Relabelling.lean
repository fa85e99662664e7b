import Formulary.Proofs.Reachability
import Mathlib.Data.Set.Function

/-!
# Relabelling

Graphs that differ in the labels of their blank nodes. A renaming that keeps the labels of a graph
apart can be taken back (`Graph.Relabelled.exists_back`), so what is shown of the way there holds of
the way back.
-/

namespace Formulary
open Std Relation

/-! ## Renamed terms and triples -/

/-- The term with its label renamed if it is a blank node. -/
def Term.relabel (rename : String → String) : Term → Term
  | .blank label => .blank (rename label)
  | term => term

/-- The triple with its subject and object renamed. -/
def Triple.relabel (rename : String → String) (t : Triple) : Triple :=
  { t with subject := t.subject.relabel rename, object := t.object.relabel rename }

namespace Term

variable {rename : String → String} {a : Term}

@[simp] theorem relabel_blank {label : String} :
    (blank label).relabel rename = blank (rename label) := rfl

@[simp] theorem isBlank_relabel : (a.relabel rename).isBlank = a.isBlank := by cases a <;> rfl

theorem relabel_of_isIri (isIri : a.isIri) : a.relabel rename = a := by
  obtain ⟨value, rfl⟩ := exists_iri_of_isIri isIri
  rfl

end Term

namespace Graph

/-- The labels of the blank nodes of a graph. -/
def labels (g : Graph) : Set String :=
  { label | ∃ t ∈ g, t.subject = .blank label ∨ t.object = .blank label }

/-- The graph with its blank nodes renamed. -/
def relabel (g : Graph) (rename : String → String) : Graph := g.map (Triple.relabel rename)

/-- Two graphs are renamed into each other: there and back, triples are what they were. -/
structure Relabelled (there back : String → String) (g h : Graph) : Prop where
  mem : ∀ t ∈ g, t.relabel there ∈ h
  mem_back : ∀ t ∈ h, t.relabel back ∈ g
  returns : ∀ t ∈ g, (t.relabel there).relabel back = t
  returns_back : ∀ t ∈ h, (t.relabel back).relabel there = t

namespace Relabelled

theorem symm {there back : String → String} {g h : Graph} (same : Relabelled there back g h) :
    Relabelled back there h g :=
  ⟨same.mem_back, same.mem, same.returns_back, same.returns⟩

/-- A renaming that keeps the labels of a graph apart can be taken back. -/
theorem exists_back {g : Graph} {rename : String → String} (apart : Set.InjOn rename g.labels) :
    ∃ back, Relabelled rename back g (g.relabel rename) := by
  let back := Function.invFunOn rename g.labels
  have returnsTerm : ∀ a : Term, (∃ t ∈ g, t.subject = a ∨ t.object = a) →
      (a.relabel rename).relabel back = a := fun a mentioned => by
    cases a with
    | iri value => rfl
    | literal value => rfl
    | blank label => exact congrArg Term.blank (apart.leftInvOn_invFunOn mentioned)
  have returns : ∀ t ∈ g, (t.relabel rename).relabel back = t := fun t member => by
    have subject := returnsTerm t.subject ⟨t, member, .inl rfl⟩
    have object := returnsTerm t.object ⟨t, member, .inr rfl⟩
    simp only [Triple.relabel, subject, object]
  refine ⟨back, fun t member => SortedSet.mem_map.mpr ⟨t, member, rfl⟩, fun u member => ?_,
    returns, fun u member => ?_⟩
  · obtain ⟨t, here, rfl⟩ := SortedSet.mem_map.mp member
    exact (returns t here).symm ▸ here
  · obtain ⟨t, here, rfl⟩ := SortedSet.mem_map.mp member
    rw [returns t here]

/-! ## Edges and paths -/

variable {there back : String → String} {g h : Graph} {a b predicate : Term}

theorem edge (same : Relabelled there back g h) (edge : g.Edge predicate a b) :
    h.Edge predicate (a.relabel there) (b.relabel there) := same.mem _ edge

theorem source_returns (same : Relabelled there back g h) (edge : g.Edge predicate a b) :
    (a.relabel there).relabel back = a := congrArg Triple.subject (same.returns _ edge)

theorem target_returns (same : Relabelled there back g h) (edge : g.Edge predicate a b) :
    (b.relabel there).relabel back = b := congrArg Triple.object (same.returns _ edge)

/-- The edges from a renamed node are the renamed edges. -/
theorem edge_iff (same : Relabelled there back g h) (returns : (a.relabel there).relabel back = a) :
    h.Edge predicate (a.relabel there) b ↔ ∃ c, c.relabel there = b ∧ g.Edge predicate a c := by
  constructor
  · intro edge
    exact ⟨b.relabel back, same.symm.target_returns edge, returns ▸ same.symm.edge edge⟩
  · rintro ⟨c, rfl, edge⟩
    exact same.edge edge

theorem alone (same : Relabelled there back g h) (alone : ∀ c, g.Edge predicate a c ↔ c = b) :
    ∀ c, h.Edge predicate (a.relabel there) c ↔ c = b.relabel there := fun c => by
  simp only [same.edge_iff (same.source_returns ((alone b).mpr rfl)), alone, exists_eq_right,
    @eq_comm _ c]

theorem path (same : Relabelled there back g h) (path : ReflTransGen (g.Edge predicate) a b) :
    ReflTransGen (h.Edge predicate) (a.relabel there) (b.relabel there) :=
  path.lift (Term.relabel there) fun _ _ edge => same.edge edge

end Relabelled
end Graph
end Formulary
