import Formulary.Proofs.IndependentOptionals
import Formulary.Resolution.Cell

/-!
# What the questions find

The rows of a question about cells, turned back into what the graph says: which cells there are under
which roots, what their elements are, and what is said of these (`AsksCell.mem_places`,
`AsksCell.mem_elements`, `AsksCell.mem_marks`).
-/

namespace Formulary
open Std Relation

/-! ## Rows with modifiers -/

/-- The required patterns of a question about a cell: they bind a root, the cell and its element, and
leave open what the modifiers bind. -/
structure AsksCell (patterns : List TriplePattern) (cell : Variable) : Prop where
  root : Question.root ∈ patterns.flatMap (·.vars)
  cell : cell ∈ patterns.flatMap (·.vars)
  element : Question.element ∈ patterns.flatMap (·.vars)
  modifier : Question.modifier ∉ patterns.flatMap (·.vars)
  target : Question.target ∉ patterns.flatMap (·.vars)

/-- The question with the given required patterns. -/
abbrev Question.marked (patterns : List TriplePattern) : Group :=
  { patterns, optionals := [Question.modifiers] }

/-- A valuation changed so that the modifiers bind what a triple says of its subject. -/
def said (σ : Valuation) (t : Triple) : Valuation :=
  Function.update (Function.update σ Question.modifier t.predicate) Question.target t.object

namespace AsksCell

variable {patterns : List TriplePattern} {cell : Variable} {schema : Dataset} {row : Solution}
  {σ : Valuation}

/-- What a triple says of an element does not concern the required patterns. -/
private theorem agrees_said (asks : AsksCell patterns cell) (σ : Valuation) (t : Triple) :
    (Solution.assign ∅ (patterns.flatMap (·.vars)) σ).Agrees (said σ t) := by
  intro v value bound
  rw [Solution.get?_assign] at bound
  by_cases member : v ∈ patterns.flatMap (·.vars)
  · rw [if_pos member] at bound
    have notModifier : v ≠ Question.modifier := fun same => asks.modifier (same ▸ member)
    have notTarget : v ≠ Question.target := fun same => asks.target (same ▸ member)
    rw [said, Function.update_of_ne notTarget, Function.update_of_ne notModifier]
    exact Option.some.inj bound
  · rw [if_neg member] at bound
    exact absurd bound nofun

theorem plain_modifiers : Question.modifiers.optionals = [] := rfl

theorem matches_modifiers {g : Graph} : Question.modifiers.Matches g σ ↔
    ⟨σ Question.element, σ Question.modifier, σ Question.target⟩ ∈ g := by
  constructor
  · exact fun holds => holds _ (List.mem_singleton_self _)
  · intro member p pattern
    rw [List.mem_singleton.mp pattern]
    exact member

/-- The modifiers have no answer where nothing is said of the element. -/
private theorem silent_iff (asks : AsksCell patterns cell) {g : Graph} :
    (∀ τ : Valuation, (∀ v ∈ patterns.flatMap (·.vars), τ v = σ v) →
        ¬ Question.modifiers.Matches g τ) ↔
      ∀ t ∈ g, t.subject ≠ σ Question.element := by
  constructor
  · intro nothing t member about
    refine nothing (said σ t) (Solution.agrees_assign_empty_iff.mp (asks.agrees_said σ t))
      (matches_modifiers.mpr ?_)
    show (⟨σ Question.element, t.predicate, t.object⟩ : Triple) ∈ g
    rw [← about]
    exact member
  · intro silent τ same holds
    exact silent _ (matches_modifiers.mp holds) (same _ asks.element)

/-- A row answers all required patterns, and gives one thing that is said of the element if there is
any. -/
theorem mem_select (asks : AsksCell patterns cell) :
    row ∈ schema.select (Question.marked patterns) ↔
      ∃ σ : Valuation, (∀ p ∈ patterns, p.Holds (schema.graph none) σ) ∧
        (⟨σ Question.element, σ Question.modifier, σ Question.target⟩ ∈ schema.graph none ∧
            row = Solution.assign ∅ (patterns.flatMap (·.vars) ++ Question.modifiers.vars) σ ∨
          (∀ t ∈ schema.graph none, t.subject ≠ σ Question.element) ∧
            row = Solution.assign ∅ (patterns.flatMap (·.vars)) σ) := by
  simp only [Dataset.mem_select_optional plain_modifiers, matches_modifiers, ← asks.silent_iff]

/-- What a row says: a valuation that answers the required patterns, and what its mark says of the
element. -/
theorem exists_valuation (asks : AsksCell patterns cell)
    (found : row ∈ schema.select (Question.marked patterns)) :
    ∃ σ : Valuation, (∀ p ∈ patterns, p.Holds (schema.graph none) σ) ∧
      (∀ v ∈ patterns.flatMap (·.vars), row.get? v = some (σ v)) ∧
      ∀ mark, CellRows.mark? row = some mark →
        ⟨σ Question.element, mark.modifier, mark.target⟩ ∈ schema.graph none := by
  obtain ⟨σ, holds, ⟨said, rfl⟩ | ⟨-, rfl⟩⟩ := asks.mem_select.mp found
  · refine ⟨σ, holds, fun v member => ?_, fun mark marked => ?_⟩
    · rw [Solution.get?_assign, if_pos (List.mem_append_left _ member)]
    · have modifier : Question.modifier ∈ Question.modifiers.vars := by decide
      have target : Question.target ∈ Question.modifiers.vars := by decide
      simp only [CellRows.mark?, Solution.get?_assign, List.mem_append, modifier, target, or_true,
        if_true, Option.pure_def, Option.bind_eq_bind, Option.bind_some, Option.some.injEq] at marked
      rw [← marked]
      exact said
  · refine ⟨σ, holds, fun v member => ?_, fun mark marked => ?_⟩
    · rw [Solution.get?_assign, if_pos member]
    · simp [CellRows.mark?, Solution.get?_assign, asks.modifier] at marked

/-- Everything that is said of an element stands in a row. -/
theorem exists_row_said (asks : AsksCell patterns cell)
    (holds : ∀ p ∈ patterns, p.Holds (schema.graph none) σ) {t : Triple}
    (member : t ∈ schema.graph none) (about : t.subject = σ Question.element) :
    ∃ row ∈ schema.select (Question.marked patterns),
      (∀ v ∈ patterns.flatMap (·.vars), row.get? v = some (σ v)) ∧
        CellRows.mark? row = some ⟨t.predicate, t.object⟩ := by
  have values : ∀ v ∈ patterns.flatMap (·.vars), said σ t v = σ v := fun v there => by
    refine asks.agrees_said σ t v _ ?_
    rw [Solution.get?_assign, if_pos there]
  refine ⟨_, asks.mem_select.mpr ⟨said σ t, fun p pattern => ?_, .inl ⟨?_, rfl⟩⟩, fun v there => ?_, ?_⟩
  · refine (TriplePattern.holds_congr fun v there => ?_).mp (holds p pattern)
    exact (values v (List.mem_flatMap.mpr ⟨p, pattern, there⟩)).symm
  · show (⟨σ Question.element, t.predicate, t.object⟩ : Triple) ∈ schema.graph none
    rw [← about]
    exact member
  · rw [Solution.get?_assign, if_pos (List.mem_append_left _ there), values v there]
  · have modifier : Question.modifier ∈ Question.modifiers.vars := by decide
    have target : Question.target ∈ Question.modifiers.vars := by decide
    simp only [CellRows.mark?, Solution.get?_assign, List.mem_append, modifier, target, or_true,
      if_true]
    rfl

/-- The required patterns have an answer at a place, with an element. -/
def Finds (schema : Dataset) (patterns : List TriplePattern) (cell : Variable) (place : Place)
    (element : Term) : Prop :=
  ∃ σ : Valuation, (∀ p ∈ patterns, p.Holds (schema.graph none) σ) ∧
    σ Question.root = place.root ∧ σ cell = place.cell ∧ σ Question.element = element

variable {place : Place}

private theorem place?_eq (asks : AsksCell patterns cell)
    (values : ∀ v ∈ patterns.flatMap (·.vars), row.get? v = some (σ v)) :
    CellRows.place? cell row = some ⟨σ Question.root, σ cell⟩ := by
  rw [CellRows.place?, values _ asks.root, values _ asks.cell, values _ asks.element]
  rfl

theorem mem_places (asks : AsksCell patterns cell) :
    place ∈ CellRows.places cell (schema.select (Question.marked patterns)) ↔
      ∃ element, Finds schema patterns cell place element := by
  simp only [CellRows.places, SortedSet.mem_ofList, List.mem_filterMap]
  constructor
  · rintro ⟨row, found, here⟩
    obtain ⟨σ, holds, values, -⟩ := asks.exists_valuation found
    rw [asks.place?_eq values] at here
    obtain rfl := Option.some.inj here
    exact ⟨_, σ, holds, rfl, rfl, rfl⟩
  · rintro ⟨_, σ, holds, root, cell, rfl⟩
    obtain ⟨row, found, values⟩ := Dataset.exists_row_of_holds plain_modifiers holds
    refine ⟨row, found, ?_⟩
    rw [asks.place?_eq values, root, cell]

theorem mem_elements (asks : AsksCell patterns cell) {element : Term} :
    element ∈ (CellRows.ofRows cell (schema.select (Question.marked patterns)) place).elements ↔
      Finds schema patterns cell place element := by
  simp only [CellRows.ofRows, SortedSet.mem_ofList, List.mem_filterMap, List.mem_filter,
    decide_eq_true_eq]
  constructor
  · rintro ⟨row, ⟨found, here⟩, bound⟩
    obtain ⟨σ, holds, values, -⟩ := asks.exists_valuation found
    rw [asks.place?_eq values] at here
    rw [values _ asks.element] at bound
    obtain rfl := Option.some.inj here
    exact ⟨σ, holds, rfl, rfl, Option.some.inj bound⟩
  · rintro ⟨σ, holds, root, cell, rfl⟩
    obtain ⟨row, found, values⟩ := Dataset.exists_row_of_holds plain_modifiers holds
    refine ⟨row, ⟨found, ?_⟩, values _ asks.element⟩
    rw [asks.place?_eq values, root, cell]

theorem mem_marks (asks : AsksCell patterns cell) {mark : Mark} :
    mark ∈ (CellRows.ofRows cell (schema.select (Question.marked patterns)) place).marks ↔
      ∃ element, Finds schema patterns cell place element ∧
        ⟨element, mark.modifier, mark.target⟩ ∈ schema.graph none := by
  simp only [CellRows.ofRows, SortedSet.mem_ofList, List.mem_filterMap, List.mem_filter,
    decide_eq_true_eq]
  constructor
  · rintro ⟨row, ⟨found, here⟩, marked⟩
    obtain ⟨σ, holds, values, told⟩ := asks.exists_valuation found
    rw [asks.place?_eq values] at here
    obtain rfl := Option.some.inj here
    exact ⟨_, ⟨σ, holds, rfl, rfl, rfl⟩, told mark marked⟩
  · rintro ⟨_, ⟨σ, holds, root, cell, rfl⟩, member⟩
    obtain ⟨row, found, values, marked⟩ := asks.exists_row_said holds member rfl
    refine ⟨row, ⟨found, ?_⟩, marked⟩
    rw [asks.place?_eq values, root, cell]

end AsksCell

/-! ## The cells of a kind of root -/

namespace Graph

/-- The terms that carry a path. -/
def IsRoot (g : Graph) : RootKind → Term → Prop
  | .field, root => g.Edge (.iri Rdf.type) root (.iri FormNs.field)
  | .generator, root => ∃ generator, g.Edge (.iri Rdf.type) generator (.iri FormNs.generator) ∧
      g.Edge (.iri FormNs.scope) generator root

/-- The cell is a path value of the root. -/
def Starts (g : Graph) (kind : RootKind) (root cell : Term) : Prop :=
  g.IsRoot kind root ∧ g.Edge (.iri Sh.path) root cell

/-- The cell comes after a path value of the root. -/
def Follows (g : Graph) (kind : RootKind) (root cell : Term) : Prop :=
  ∃ list, g.Starts kind root list ∧ TransGen (g.Edge (.iri Rdf.rest)) list cell

end Graph

namespace Question

/-- The required patterns about first cells. -/
def headPatterns (kind : RootKind) : List TriplePattern :=
  roots kind ++ [fact root Sh.path (.var list), fact list Rdf.first (.var element)]

/-- The required patterns about later cells. -/
def tailPatterns (kind : RootKind) : List TriplePattern :=
  roots kind ++ [fact root Sh.path (.var list), ⟨.var list, .oneOrMore (.iri Rdf.rest), .var cell⟩,
    fact previous Rdf.rest (.var cell), fact cell Rdf.first (.var element)]

theorem asks_heads (kind : RootKind) : AsksCell (headPatterns kind) list := by
  cases kind <;> constructor <;> decide

theorem asks_tails (kind : RootKind) : AsksCell (tailPatterns kind) cell := by
  cases kind <;> constructor <;> decide

variable {g : Graph} {kind : RootKind} {σ : Valuation}

/-- The valuation of what the questions about cells ask for. -/
def binding (owner root list cell previous element : Term) : Valuation := fun v =>
  if v = Question.root then root
  else if v = Question.generator then owner
  else if v = Question.list then list
  else if v = Question.cell then cell
  else if v = Question.previous then previous
  else element

theorem isRoot_of_holds (holds : ∀ p ∈ roots kind, p.Holds g σ) : g.IsRoot kind (σ root) := by
  cases kind with
  | field => exact holds _ (List.mem_singleton_self _)
  | generator => exact ⟨_, holds _ List.mem_cons_self, holds _ (List.mem_cons_of_mem _ List.mem_cons_self)⟩

theorem exists_owner {top : Term} (isRoot : g.IsRoot kind top) :
    ∃ owner, ∀ list cell previous element, ∀ p ∈ roots kind,
      p.Holds g (binding owner top list cell previous element) := by
  cases kind with
  | field =>
    refine ⟨default, fun _ _ _ _ p member => ?_⟩
    rw [List.mem_singleton.mp member]
    exact isRoot
  | generator =>
    obtain ⟨owner, typed, inside⟩ := isRoot
    refine ⟨owner, fun _ _ _ _ p member => ?_⟩
    rcases List.mem_cons.mp member with rfl | member
    · exact typed
    · rw [List.mem_singleton.mp member]
      exact inside

variable {schema : Dataset} {place : Place} {found : Term}

theorem holds_headPatterns : (∀ p ∈ headPatterns kind, p.Holds g σ) ↔
    (∀ p ∈ roots kind, p.Holds g σ) ∧ g.Edge (.iri Sh.path) (σ root) (σ list) ∧
      g.Edge (.iri Rdf.first) (σ list) (σ element) := by
  simp only [headPatterns, List.forall_mem_append, List.forall_mem_cons, List.not_mem_nil,
    false_implies, implies_true, and_true]
  rfl

theorem holds_tailPatterns : (∀ p ∈ tailPatterns kind, p.Holds g σ) ↔
    (∀ p ∈ roots kind, p.Holds g σ) ∧ g.Edge (.iri Sh.path) (σ root) (σ list) ∧
      TransGen (g.Edge (.iri Rdf.rest)) (σ list) (σ cell) ∧
      g.Edge (.iri Rdf.rest) (σ previous) (σ cell) ∧ g.Edge (.iri Rdf.first) (σ cell) (σ element) := by
  simp only [tailPatterns, List.forall_mem_append, List.forall_mem_cons, List.not_mem_nil,
    false_implies, implies_true, and_true]
  rfl

theorem finds_heads : AsksCell.Finds schema (headPatterns kind) list place found ↔
    (schema.graph none).Starts kind place.root place.cell ∧
      (schema.graph none).Edge (.iri Rdf.first) place.cell found := by
  constructor
  · rintro ⟨σ, holds, atRoot, atCell, rfl⟩
    obtain ⟨isRoot, path, first⟩ := holds_headPatterns.mp holds
    rw [← atRoot, ← atCell]
    exact ⟨⟨isRoot_of_holds isRoot, path⟩, first⟩
  · rintro ⟨⟨isRoot, path⟩, first⟩
    obtain ⟨owner, holds⟩ := exists_owner isRoot
    exact ⟨binding owner place.root place.cell default default found,
      holds_headPatterns.mpr ⟨holds _ _ _ _, path, first⟩, rfl, rfl, rfl⟩

/-- A later cell that is asked about, with a cell before it. -/
theorem exists_tail {r a c b : Term} :
    (∃ σ : Valuation, (∀ p ∈ tailPatterns kind, p.Holds g σ) ∧
      σ root = r ∧ σ cell = c ∧ σ previous = a ∧ σ element = b) ↔
      g.Follows kind r c ∧ g.Edge (.iri Rdf.rest) a c ∧ g.Edge (.iri Rdf.first) c b := by
  constructor
  · rintro ⟨σ, holds, atRoot, atCell, rfl, rfl⟩
    obtain ⟨isRoot, path, later, rest, first⟩ := holds_tailPatterns.mp holds
    rw [← atRoot, ← atCell]
    exact ⟨⟨_, ⟨isRoot_of_holds isRoot, path⟩, later⟩, rest, first⟩
  · rintro ⟨⟨start, ⟨isRoot, path⟩, later⟩, rest, first⟩
    obtain ⟨owner, holds⟩ := exists_owner isRoot
    exact ⟨binding owner r start c a b,
      holds_tailPatterns.mpr ⟨holds _ _ _ _, path, later, rest, first⟩, rfl, rfl, rfl, rfl⟩

theorem finds_tails : AsksCell.Finds schema (tailPatterns kind) cell place found ↔
    (schema.graph none).Follows kind place.root place.cell ∧
      (schema.graph none).Edge (.iri Rdf.first) place.cell found := by
  constructor
  · rintro ⟨σ, holds, atRoot, atCell, atElement⟩
    obtain ⟨follows, -, first⟩ := exists_tail.mp ⟨σ, holds, atRoot, atCell, rfl, atElement⟩
    exact ⟨follows, first⟩
  · rintro ⟨follows, first⟩
    obtain ⟨start, starts, later⟩ := follows
    obtain ⟨last, -, rest⟩ := TransGen.tail'_iff.mp later
    obtain ⟨σ, holds, atRoot, atCell, -, atElement⟩ :=
      exists_tail.mpr ⟨⟨start, starts, later⟩, rest, first⟩
    exact ⟨σ, holds, atRoot, atCell, atElement⟩

end Question

end Formulary
