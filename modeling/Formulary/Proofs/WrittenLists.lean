import Formulary.Proofs.CellLabels
import Formulary.Proofs.ForkedLists

/-!
# Lists of declared fields

The list that a declaration writes for the steps of a path is passed by just these steps
(`Graph.Spells.passes`), in every graph that says of its cells what the declaration says and no more.
-/

namespace Formulary
open Std Relation

namespace FieldDefinition

variable {field : Term} {start : Nat} {step : Step} {chain : Chain} {t : Triple}

/-! ## Triples of one cell -/

/-- The element that stands for a step. -/
def elementOf (field : Term) (index : Nat) (step : Step) : Term :=
  match step.direction with
  | .forward => step.predicate
  | .inverse => stepNode field index

/-- What comes after a cell, before the given steps. -/
def nextOf (field : Term) (index : Nat) (later : Chain) : Term :=
  if later.isEmpty then .iri Rdf.nil else cell field (index + 1)

/-- What is written of the cell of a step, and of its element. -/
def WritesCell (field : Term) (index : Nat) (step : Step) (later : Chain) (t : Triple) : Prop :=
  t = ⟨cell field index, .iri Rdf.first, elementOf field index step⟩ ∨
    t = ⟨cell field index, .iri Rdf.rest, nextOf field index later⟩ ∨
    step.direction = .inverse ∧ t = ⟨stepNode field index, .iri Sh.inversePath, step.predicate⟩

theorem mem_listTriples_cons : t ∈ listTriples field start (step :: chain) ↔
    WritesCell field start step chain t ∨ t ∈ listTriples field (start + 1) chain := by
  obtain ⟨predicate, _ | _⟩ := step
  · simp [WritesCell, listTriples, elementOf, nextOf, or_assoc]
  · simp only [WritesCell, listTriples, elementOf, nextOf, List.cons_append, List.nil_append,
      List.mem_cons, true_and, or_assoc]
    rw [or_left_comm, or_left_comm (b := _ = _) (c := t ∈ _)]

/-- What is written of a list is what is written of each of its cells. -/
theorem mem_listTriples : t ∈ listTriples field start chain ↔ ∃ before step later,
    chain = before ++ step :: later ∧ WritesCell field (start + before.length) step later t := by
  induction chain generalizing start with
  | nil => simp [listTriples]
  | cons first rest ih =>
    rw [mem_listTriples_cons, ih]
    constructor
    · rintro (written | ⟨before, step, later, rfl, written⟩)
      · exact ⟨[], first, rest, rfl, written⟩
      · refine ⟨first :: before, step, later, rfl, ?_⟩
        rwa [List.length_cons, Nat.add_comm before.length, ← Nat.add_assoc]
    · rintro ⟨_ | ⟨head, before⟩, step, later, same, written⟩
      · obtain ⟨rfl, rfl⟩ := List.cons.inj same
        exact .inl written
      · obtain ⟨rfl, rfl⟩ := List.cons.inj same
        refine .inr ⟨before, step, later, rfl, ?_⟩
        rwa [List.length_cons, Nat.add_comm before.length, ← Nat.add_assoc] at written

/-- What is written of a node is written at its own place in the list. -/
theorem writesCell_of_mem {before later : Chain}
    (member : t ∈ listTriples field 0 (before ++ step :: later))
    (here : t.subject = cell field before.length ∨ t.subject = stepNode field before.length) :
    WritesCell field before.length step later t := by
  obtain ⟨others, other, rest, same, written⟩ := mem_listTriples.mp member
  rw [Nat.zero_add] at written
  have place : before.length = others.length := by
    have subject : t.subject = cell field others.length ∨ t.subject = stepNode field others.length := by
      rcases written with rfl | rfl | ⟨-, rfl⟩
      · exact .inl rfl
      · exact .inl rfl
      · exact .inr rfl
    rcases here with here | here <;> rcases subject with there | there <;>
      rw [here] at there
    · exact cell_inj.mp there
    · exact absurd there cell_ne_stepNode
    · exact absurd there.symm cell_ne_stepNode
    · exact stepNode_inj.mp there
  obtain ⟨rfl, steps⟩ := List.append_inj same place
  obtain ⟨rfl, rfl⟩ := List.cons.inj steps
  exact written

end FieldDefinition

/-! ## Reading back what is written -/

namespace Graph
open FieldDefinition

/-- The graph says of the nodes of a written list what is written, and no element of `rdf:nil`. -/
structure Spells (g : Graph) (field : Term) (chain : Chain) : Prop where
  written : ∀ t ∈ listTriples field 0 chain, t ∈ g
  only : ∀ t ∈ g, (∃ s ∈ listTriples field 0 chain, s.subject = t.subject) →
    t ∈ listTriples field 0 chain
  bare : ∀ element, ¬ g.Edge (.iri Rdf.first) (.iri Rdf.nil) element

namespace Spells

variable {g : Graph} {field b : Term} {before later : Chain} {step : Step} {t : Triple}

theorem mem_iff (spells : g.Spells field (before ++ step :: later))
    (here : t.subject = cell field before.length ∨
      step.direction = .inverse ∧ t.subject = stepNode field before.length) :
    t ∈ g ↔ WritesCell field before.length step later t := by
  have listed : ∀ s, WritesCell field before.length step later s →
      s ∈ listTriples field 0 (before ++ step :: later) := fun s written =>
    mem_listTriples.mpr ⟨before, step, later, rfl, by rwa [Nat.zero_add]⟩
  constructor
  · intro member
    refine writesCell_of_mem (spells.only t member ?_) (here.imp_right And.right)
    rcases here with about | ⟨back, about⟩
    · exact ⟨_, listed _ (.inl rfl), about.symm⟩
    · exact ⟨_, listed _ (.inr (.inr ⟨back, rfl⟩)), about.symm⟩
  · exact fun written => spells.written t (listed t written)

theorem first_iff (spells : g.Spells field (before ++ step :: later)) :
    g.Edge (.iri Rdf.first) (cell field before.length) b ↔ b = elementOf field before.length step := by
  rw [Edge, spells.mem_iff (.inl rfl)]
  simp [WritesCell, Rdf.first, Rdf.rest, Sh.inversePath]

theorem rest_iff (spells : g.Spells field (before ++ step :: later)) :
    g.Edge (.iri Rdf.rest) (cell field before.length) b ↔ b = nextOf field before.length later := by
  rw [Edge, spells.mem_iff (.inl rfl)]
  simp [WritesCell, Rdf.first, Rdf.rest, Sh.inversePath]

/-- Of the element of a step back its inverse path is said, and nothing else. -/
theorem back_iff (spells : g.Spells field (before ++ step :: later)) (back : step.direction = .inverse) :
    t ∈ g ∧ t.subject = stepNode field before.length ↔
      t = ⟨stepNode field before.length, .iri Sh.inversePath, step.predicate⟩ := by
  constructor
  · rintro ⟨member, about⟩
    rcases (spells.mem_iff (.inr ⟨back, about⟩)).mp member with rfl | rfl | ⟨-, rfl⟩
    · exact absurd about cell_ne_stepNode
    · exact absurd about cell_ne_stepNode
    · rfl
  · rintro rfl
    exact ⟨(spells.mem_iff (.inr ⟨back, rfl⟩)).mpr (.inr (.inr ⟨back, rfl⟩)), rfl⟩

/-- A cell carries the step that it was written for. -/
theorem decode? (spells : g.Spells field (before ++ step :: later)) (isIri : step.predicate.isIri) :
    g.decode? (cell field before.length) = some (.ok step) := by
  refine decode?_eq_ok.mpr ⟨_, fun _ => spells.first_iff, ?_⟩
  obtain ⟨predicate, _ | _⟩ := step
  · obtain ⟨value, rfl⟩ := Term.exists_iri_of_isIri isIri
    rfl
  · exact stepOf_blank_eq_ok.mpr ⟨predicate, fun _ => spells.back_iff rfl, isIri, rfl⟩

/-- From every cell on, a written list is passed by the steps that are left. -/
theorem passes_from (spells : g.Spells field (before ++ step :: later))
    (isIri : ∀ other ∈ before ++ step :: later, other.predicate.isIri) :
    g.Passes (cell field before.length) (step :: later) := by
  have decoded := spells.decode? (isIri step (by simp))
  induction later generalizing before step with
  | nil =>
    have ends : ∀ next, g.Edge (.iri Rdf.rest) (cell field before.length) next ↔ next = .iri Rdf.nil :=
      fun _ => spells.rest_iff
    refine .last decoded ((ends _).mpr rfl) fun next later rest carries => ?_
    obtain ⟨element, first⟩ := edge_first_of_decode? carries
    exact spells.bare element ((ends next).mp rest ▸ first)
  | cons next later ih =>
    have shifted : before ++ step :: next :: later = (before ++ [step]) ++ next :: later := by simp
    have rests : ∀ other, g.Edge (.iri Rdf.rest) (cell field before.length) other ↔
        other = cell field (before ++ [step]).length := fun _ => by
      rw [spells.rest_iff, List.length_append, List.length_singleton]
      rfl
    rw [shifted] at spells
    exact .more decoded ((rests _).mpr rfl) (fun other _ rest _ => (rests other).mp rest)
      (ih spells (by simpa using isIri) (spells.decode? (isIri next (by simp))))

theorem passes {chain : Chain} (spells : g.Spells field chain) (occupied : chain ≠ [])
    (isIri : ∀ step ∈ chain, step.predicate.isIri) : g.Passes (cell field 0) chain := by
  obtain ⟨step, later, rfl⟩ := List.exists_cons_of_ne_nil occupied
  have whole : g.Spells field ([] ++ step :: later) := spells
  have fromStart := whole.passes_from isIri
  exact fromStart

/-- From its first cell on, a written list comes to its own cells and to the end. -/
theorem exists_cell_of_reaches {chain : Chain} (spells : g.Spells field chain) (occupied : chain ≠ [])
    (last : ∀ next, ¬ g.Edge (.iri Rdf.rest) (.iri Rdf.nil) next)
    (way : ReflTransGen (g.Edge (.iri Rdf.rest)) (cell field 0) b) : b = .iri Rdf.nil ∨
      ∃ before step later, chain = before ++ step :: later ∧ b = cell field before.length := by
  induction way with
  | refl =>
    obtain ⟨step, later, rfl⟩ := List.exists_cons_of_ne_nil occupied
    exact .inr ⟨[], step, later, rfl, rfl⟩
  | tail _ rest ih =>
    rcases ih with rfl | ⟨before, step, later, rfl, rfl⟩
    · exact absurd rest (last _)
    · obtain rfl := spells.rest_iff.mp rest
      cases later with
      | nil => exact .inl rfl
      | cons next later => exact .inr ⟨before ++ [step], next, later, by simp, by simp [nextOf]⟩

/-- Every cell of a written list is supported, and so is its end. -/
theorem supported {chain : Chain} (spells : g.Spells field chain) (occupied : chain ≠ [])
    (isIri : ∀ step ∈ chain, step.predicate.isIri)
    (last : ∀ next, ¬ g.Edge (.iri Rdf.rest) (.iri Rdf.nil) next)
    (way : ReflTransGen (g.Edge (.iri Rdf.rest)) (cell field 0) b) : g.Supported b := by
  intro element first blank t about
  rcases spells.exists_cell_of_reaches occupied last way with rfl | ⟨before, step, later, rfl, rfl⟩
  · exact absurd first (spells.bare element)
  · obtain rfl := spells.first_iff.mp first
    obtain ⟨predicate, _ | _⟩ := step
    · exact absurd blank (Term.not_isBlank_of_isIri (isIri ⟨predicate, .forward⟩ (by simp)))
    · rw [(spells.back_iff rfl).mp (mem_about.mp about)]

end Spells
end Graph
end Formulary
