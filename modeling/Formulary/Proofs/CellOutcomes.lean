import Formulary.Proofs.CellQuestions
import Formulary.Proofs.Failure
import Formulary.Proofs.ListReader
import Formulary.Resolution.Walk

/-!
# The outcomes of cells

What the questions bring about the lists of a schema, in terms of its graph: the first and the later
cells of every root, each with the outcome of decoding it, and the links between cells
(`Lists.mem_heads`, `Lists.mem_tails`, `Lists.mem_links`). All roots share these lists.
-/

namespace Formulary
open Std Relation

/-! ## The outcome of a cell -/

namespace Graph

/-- The outcome at a cell, the cell along with its step. -/
def hop? (g : Graph) (cell : Term) : Option (Except Defect Hop) :=
  (g.decode? cell).map fun outcome => outcome.map fun step => ⟨step, cell⟩

/-- Nothing but `sh:inversePath` is said of the blank elements of the cell. -/
def Supported (g : Graph) (cell : Term) : Prop :=
  ∀ element, g.Edge (.iri Rdf.first) cell element → element.isBlank →
    ∀ t ∈ g.about element, t.predicate = .iri Sh.inversePath

variable {g : Graph} {cell : Term}

theorem hop?_ne_none : g.hop? cell ≠ none ↔ ∃ element, g.Edge (.iri Rdf.first) cell element := by
  simp only [← mem_objects, hop?, decode?, ne_eq, Option.map_eq_none_iff]
  cases g.objects cell (.iri Rdf.first) with
  | nil => simp
  | cons a rest => cases rest <;> simp

end Graph

namespace CellRows

/-- The rows tell what the graph says about a cell. -/
structure Tells (rows : CellRows) (g : Graph) (cell : Term) : Prop where
  elements : ∀ element, element ∈ rows.elements ↔ g.Edge (.iri Rdf.first) cell element
  marks : ∀ mark, mark ∈ rows.marks ↔
    ∃ element, g.Edge (.iri Rdf.first) cell element ∧ ⟨element, mark.modifier, mark.target⟩ ∈ g

namespace Tells

variable {rows : CellRows} {g : Graph} {place : Place} {element : Term}

theorem objects_eq (tells : rows.Tells g place.cell) (only : rows.elements.only? = some element) :
    g.objects place.cell (.iri Rdf.first) = [element] := by
  refine Graph.objects_eq_singleton_iff.mpr fun b => ?_
  rw [← tells.elements, SortedSet.only?_eq_some_iff.mp only]

/-- The marks of an only element are the triples about it, in their order. -/
theorem marks_eq (tells : rows.Tells g place.cell) (only : rows.elements.only? = some element) :
    rows.marks.toList = (g.about element).map fun t => ⟨t.predicate, t.object⟩ := by
  have members := SortedSet.only?_eq_some_iff.mp only
  have ascending : ((g.about element).map fun t => (⟨t.predicate, t.object⟩ : Mark)).Pairwise
      fun a b => compare a b = .lt := by
    refine List.pairwise_map.mpr ((g.ascending.filter _).imp_of_mem fun {t u} here there below => ?_)
    have same : t.subject = u.subject :=
      (Graph.mem_about.mp here).2.trans (Graph.mem_about.mp there).2.symm
    have equal : compare t.subject u.subject = .eq := by rw [same, compare_self]
    have unfolded : compare t u = (compare t.subject u.subject).then
        (compare (⟨t.predicate, t.object⟩ : Mark) ⟨u.predicate, u.object⟩) := rfl
    -- Triples about the same term are in the order of what they say.
    rw [unfolded, equal] at below
    exact below
  have same : rows.marks = ⟨_, ascending⟩ := SortedSet.ext_mem fun mark => by
    rw [tells.marks, ← SortedSet.mem_toList, List.mem_map]
    simp only [← tells.elements, members, exists_eq_left, Graph.mem_about]
    constructor
    · exact fun said => ⟨_, ⟨said, rfl⟩, rfl⟩
    · rintro ⟨t, ⟨member, rfl⟩, rfl⟩
      exact member
  rw [same]

/-- Where there is no error of the whole schema, the outcome is that of decoding the cell. -/
theorem hop?_eq (tells : rows.Tells g place.cell)
    (filled : ∃ element, g.Edge (.iri Rdf.first) place.cell element) {outcome : Except Defect Hop}
    (made : rows.hop place = .ok outcome) : g.hop? place.cell = some outcome := by
  rw [hop] at made
  split at made
  · rename_i several
    have notOne : ∀ element, g.objects place.cell (.iri Rdf.first) ≠ [element] := fun element one => by
      have only : rows.elements.only? = some element := SortedSet.only?_eq_some_iff.mpr fun b => by
        rw [tells.elements, Graph.objects_eq_singleton_iff.mp one]
      exact absurd (several.symm.trans only) nofun
    obtain ⟨element, first⟩ := filled
    have notEmpty : g.objects place.cell (.iri Rdf.first) ≠ [] :=
      List.ne_nil_of_mem (Graph.mem_objects.mpr first)
    rw [Graph.hop?, Graph.decode?]
    split
    · exact absurd ‹_› notEmpty
    · exact absurd ‹_› (notOne _)
    · exact congrArg some (Except.ok.inj made)
  · rename_i element only
    have marks := tells.marks_eq only
    rw [Graph.hop?, Graph.decode?, tells.objects_eq only]
    cases element with
    | iri value => exact congrArg some (Except.ok.inj made)
    | literal value => exact congrArg some (Except.ok.inj made)
    | blank label =>
      have notIri : (Term.blank label).isIri = false := rfl
      have isBlank : (Term.blank label).isBlank = true := rfl
      simp only [notIri, isBlank, Bool.false_eq_true, if_false, Bool.not_true, marks] at made
      split at made
      · exact absurd made nofun
      · rename_i plain
        simp only [Graph.stepOf]
        cases about : g.about (.blank label) with
        | nil => simpa [about, Except.map] using made
        | cons t others =>
          cases others with
          | nil =>
            have inverse : t.predicate = .iri Sh.inversePath := by simpa [about] using plain
            by_cases iri : t.object.isIri
            · simpa [about, inverse, iri, Except.map] using made
            · simpa [about, inverse, iri, Except.map] using made
          | cons u others => simpa [about, Except.map] using made

/-- A supported cell is no error of the whole schema. -/
theorem exists_hop (tells : rows.Tells g place.cell) (supported : g.Supported place.cell) :
    ∃ outcome, rows.hop place = .ok outcome := by
  have plain : ∀ element, rows.elements.only? = some element → element.isBlank →
      (rows.marks.toList.find? fun mark => mark.modifier ≠ .iri Sh.inversePath) = none := by
    intro element only blank
    have first : g.Edge (.iri Rdf.first) place.cell element :=
      (tells.elements element).mp ((SortedSet.only?_eq_some_iff.mp only element).mpr rfl)
    rw [tells.marks_eq only, List.find?_eq_none]
    intro mark member
    obtain ⟨t, about, rfl⟩ := List.mem_map.mp member
    simp [supported element first blank t about]
  rw [hop]
  split
  · exact ⟨_, rfl⟩
  · rename_i element only
    cases element with
    | iri value => exact ⟨_, rfl⟩
    | literal value => exact ⟨_, rfl⟩
    | blank label =>
      rw [plain _ only rfl]
      cases rows.marks.toList with
      | nil => exact ⟨_, rfl⟩
      | cons mark others =>
        cases others with
        | nil => obtain ⟨modifier, _ | _ | _⟩ := mark <;> exact ⟨_, rfl⟩
        | cons => exact ⟨_, rfl⟩

end Tells
end CellRows

namespace AsksCell

variable {patterns : List TriplePattern} {cell : Variable} {schema : Dataset} {reach : Place → Prop}

/-- The rows of a question tell what the graph says about every cell that it reaches. -/
theorem tells (asks : AsksCell patterns cell) {place : Place} (reached : reach place)
    (finds : ∀ place element, Finds schema patterns cell place element ↔
      reach place ∧ (schema.graph none).Edge (.iri Rdf.first) place.cell element) :
    (CellRows.ofRows cell (schema.select (Question.marked patterns)) place).Tells
      (schema.graph none) place.cell where
  elements element := by rw [asks.mem_elements, finds, and_iff_right reached]
  marks mark := by simp only [asks.mem_marks, finds, reached, true_and]

/-- Where no modifier is an error, every reached cell has the outcome of decoding it. -/
theorem mem_hopsOf (asks : AsksCell patterns cell)
    (finds : ∀ place element, Finds schema patterns cell place element ↔
      reach place ∧ (schema.graph none).Edge (.iri Rdf.first) place.cell element)
    {hops : List (Place × Except Defect Hop)}
    (made : hopsOf cell (schema.select (Question.marked patterns)) = .ok hops) {place : Place}
    {outcome : Except Defect Hop} : (place, outcome) ∈ hops ↔
      reach place ∧ (schema.graph none).hop? place.cell = some outcome := by
  obtain ⟨each, members⟩ := mapM_eq_ok made
  have decoded : ∀ place ∈ CellRows.places cell (schema.select (Question.marked patterns)),
      ∀ outcome, (CellRows.ofRows cell (schema.select (Question.marked patterns)) place).hop place =
        .ok outcome → reach place ∧ (schema.graph none).hop? place.cell = some outcome := by
    intro place member outcome hop
    obtain ⟨element, found⟩ := asks.mem_places.mp member
    obtain ⟨reached, first⟩ := (finds place element).mp found
    exact ⟨reached, (asks.tells reached finds).hop?_eq ⟨element, first⟩ hop⟩
  constructor
  · intro member
    obtain ⟨found, here, entered⟩ := (members _).mp member
    obtain ⟨other, hop, same⟩ := return_eq_ok.mp entered
    obtain ⟨rfl, rfl⟩ := Prod.mk.inj same
    exact decoded _ here _ hop
  · rintro ⟨reached, hop⟩
    obtain ⟨element, first⟩ := Graph.hop?_ne_none.mp (hop ▸ Option.some_ne_none _)
    have here : place ∈ CellRows.places cell (schema.select (Question.marked patterns)) :=
      asks.mem_places.mpr ⟨element, (finds place element).mpr ⟨reached, first⟩⟩
    obtain ⟨entry, entered⟩ := each place here
    obtain ⟨other, found, rfl⟩ := return_eq_ok.mp entered
    obtain rfl : other = outcome := Option.some.inj ((decoded _ here _ found).2.symm.trans hop)
    exact (members _).mpr ⟨place, here, entered⟩

theorem exists_hopsOf (asks : AsksCell patterns cell)
    (finds : ∀ place element, Finds schema patterns cell place element ↔
      reach place ∧ (schema.graph none).Edge (.iri Rdf.first) place.cell element)
    (supported : ∀ place, reach place → (schema.graph none).Supported place.cell) :
    ∃ hops, hopsOf cell (schema.select (Question.marked patterns)) = .ok hops := by
  refine exists_mapM_eq_ok fun place member => ?_
  obtain ⟨element, found⟩ := asks.mem_places.mp member
  obtain ⟨reached, -⟩ := (finds place element).mp found
  obtain ⟨outcome, hop⟩ := (asks.tells reached finds).exists_hop (supported place reached)
  exact ⟨_, return_eq_ok.mpr ⟨outcome, hop, rfl⟩⟩

end AsksCell

namespace Lists

variable {schema : Dataset} {kind : RootKind} {l : Lists} {place : Place}
  {outcome : Except Defect Hop}

/-- What the questions have brought is what they ask for. -/
private theorem parts_of_ofSchema (made : ofSchema schema kind = .ok l) :
    hopsOf Question.list (schema.select (Question.marked (Question.headPatterns kind))) = .ok l.heads ∧
      hopsOf Question.cell (schema.select (Question.marked (Question.tailPatterns kind))) = .ok l.tails ∧
      l.links = (schema.select (Question.marked (Question.tailPatterns kind))).filterMap fun row => do
        return (← row.get? Question.previous, ← row.get? Question.cell) := by
  simp only [ofSchema, bind, Except.bind] at made
  split at made
  · exact absurd made nofun
  · rename_i heads headsMade
    split at made
    · exact absurd made nofun
    · rename_i tails tailsMade
      obtain rfl := (Except.ok.inj made)
      exact ⟨headsMade, tailsMade, rfl⟩

theorem mem_heads (made : ofSchema schema kind = .ok l) : (place, outcome) ∈ l.heads ↔
    (schema.graph none).Starts kind place.root place.cell ∧
      (schema.graph none).hop? place.cell = some outcome :=
  (Question.asks_heads kind).mem_hopsOf (fun _ _ => Question.finds_heads) (parts_of_ofSchema made).1

theorem mem_tails (made : ofSchema schema kind = .ok l) : (place, outcome) ∈ l.tails ↔
    (schema.graph none).Follows kind place.root place.cell ∧
      (schema.graph none).hop? place.cell = some outcome :=
  (Question.asks_tails kind).mem_hopsOf (fun _ _ => Question.finds_tails) (parts_of_ofSchema made).2.1

/-- A link leads to a later cell with an element, from any cell before that one. -/
theorem mem_links (made : ofSchema schema kind = .ok l) {previous cell : Term} :
    (previous, cell) ∈ l.links ↔ (∃ root, (schema.graph none).Follows kind root cell) ∧
      (schema.graph none).Edge (.iri Rdf.rest) previous cell ∧
      ∃ element, (schema.graph none).Edge (.iri Rdf.first) cell element := by
  have asks := Question.asks_tails kind
  have bindsPrevious : Question.previous ∈ (Question.tailPatterns kind).flatMap (·.vars) := by
    cases kind <;> decide
  rw [(parts_of_ofSchema made).2.2]
  simp only [List.mem_filterMap]
  constructor
  · rintro ⟨row, found, linked⟩
    obtain ⟨σ, holds, values, -⟩ := asks.exists_valuation found
    rw [values _ bindsPrevious, values _ asks.cell] at linked
    obtain ⟨rfl, rfl⟩ := Prod.mk.inj (Option.some.inj linked)
    obtain ⟨follows, rest, first⟩ := Question.exists_tail.mp ⟨σ, holds, rfl, rfl, rfl, rfl⟩
    exact ⟨⟨_, follows⟩, rest, _, first⟩
  · rintro ⟨⟨root, follows⟩, rest, element, first⟩
    obtain ⟨σ, holds, -, atCell, atPrevious, -⟩ :=
      Question.exists_tail.mpr ⟨follows, rest, first⟩
    obtain ⟨row, found, values⟩ := Dataset.exists_row_of_holds AsksCell.plain_modifiers holds
    refine ⟨row, found, ?_⟩
    rw [values _ bindsPrevious, values _ asks.cell, atPrevious, atCell]
    rfl

/-- The questions are answered unless something else than `sh:inversePath` is said of an element. -/
theorem exists_ofSchema
    (heads : ∀ root cell, (schema.graph none).Starts kind root cell → (schema.graph none).Supported cell)
    (tails : ∀ root cell, (schema.graph none).Follows kind root cell →
      (schema.graph none).Supported cell) : ∃ l, ofSchema schema kind = .ok l := by
  obtain ⟨headHops, headsMade⟩ := (Question.asks_heads kind).exists_hopsOf
    (fun _ _ => Question.finds_heads) fun place => heads place.root place.cell
  obtain ⟨tailHops, tailsMade⟩ := (Question.asks_tails kind).exists_hopsOf
    (fun _ _ => Question.finds_tails) fun place => tails place.root place.cell
  have headsMade : hopsOf Question.list (schema.select (Question.heads kind)) = .ok headHops := headsMade
  have tailsMade : hopsOf Question.cell (schema.select (Question.tails kind)) = .ok tailHops := tailsMade
  simp only [ofSchema, headsMade, tailsMade]
  exact ⟨_, rfl⟩

end Lists
end Formulary
