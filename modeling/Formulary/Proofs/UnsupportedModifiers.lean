import Formulary.Proofs.FieldResolution

/-!
# Unsupported modifiers

The only error of a whole schema: a cell of some list, at any depth, whose one element is a blank node
of which something other than `sh:inversePath` is said (`resolve_error_iff_unsupported`). Such a cell
is found wherever it stands, since the questions reach every cell of every root; a cell with any other
defect has an outcome, and leaves the resolution of the rest alone.
-/

namespace Formulary
open Std Relation

namespace Graph

/-- The one element of the cell is a blank node, of which the modifier is said, and this is not
`sh:inversePath`. -/
def Unsupported (g : Graph) (cell modifier : Term) : Prop :=
  ∃ element, (∀ other, g.Edge (.iri Rdf.first) cell other ↔ other = element) ∧
    element.isBlank ∧ modifier ≠ .iri Sh.inversePath ∧ ∃ target, ⟨element, modifier, target⟩ ∈ g

/-- The cell is a path value of the root, or comes after one. -/
def Contains (g : Graph) (kind : RootKind) (root cell : Term) : Prop :=
  ∃ list, g.Starts kind root list ∧ ReflTransGen (g.Edge (.iri Rdf.rest)) list cell

variable {g : Graph} {kind : RootKind} {root cell modifier : Term}

theorem contains_iff : g.Contains kind root cell ↔
    g.Starts kind root cell ∨ g.Follows kind root cell := by
  constructor
  · rintro ⟨list, starts, path⟩
    rcases reflTransGen_iff_eq_or_transGen.mp path with rfl | later
    · exact .inl starts
    · exact .inr ⟨list, starts, later⟩
  · rintro (starts | ⟨list, starts, later⟩)
    · exact ⟨cell, starts, .refl⟩
    · exact ⟨list, starts, later.to_reflTransGen⟩

end Graph

/-! ## The error at one cell -/

namespace CellRows.Tells

variable {rows : CellRows} {g : Graph} {place : Place} {modifier : Term}

theorem unsupported_of_hop (tells : rows.Tells g place.cell) {error : FormError}
    (failed : rows.hop place = .error error) :
    ∃ modifier, g.Unsupported place.cell modifier ∧
      error = .unsupportedModifier modifier place.root := by
  rw [hop] at failed
  split at failed
  · cases failed
  · rename_i element only
    have members := SortedSet.only?_eq_some_iff.mp only
    cases element with
    | iri value => cases failed
    | literal value => cases failed
    | blank label =>
      have notIri : (Term.blank label).isIri = false := rfl
      have isBlank : (Term.blank label).isBlank = true := rfl
      simp only [notIri, isBlank, Bool.false_eq_true, if_false, Bool.not_true] at failed
      split at failed
      · rename_i mark found
        have other : mark.modifier ≠ .iri Sh.inversePath := by simpa using List.find?_some found
        obtain ⟨element, first, said⟩ := (tells.marks mark).mp (List.mem_of_find?_eq_some found)
        obtain rfl := (members element).mp ((tells.elements element).mpr first)
        refine ⟨mark.modifier, ⟨_, fun element => ?_, rfl, other, mark.target, said⟩,
          (Except.error.inj failed).symm⟩
        rw [← tells.elements, members]
      · split at failed
        · split at failed <;> cases failed
        · cases failed
        · cases failed

/-- An unsupported modifier is found, whatever else the cell says. -/
theorem exists_error (tells : rows.Tells g place.cell)
    (unsupported : g.Unsupported place.cell modifier) : ∃ error, rows.hop place = .error error := by
  obtain ⟨element, alone, blank, other, target, said⟩ := unsupported
  have first : g.Edge (.iri Rdf.first) place.cell element := (alone element).mpr rfl
  have only : rows.elements.only? = some element := SortedSet.only?_eq_some_iff.mpr fun b => by
    rw [tells.elements, alone]
  have marked : ⟨modifier, target⟩ ∈ rows.marks := (tells.marks _).mpr ⟨element, first, said⟩
  have found : (rows.marks.toList.find? fun mark => mark.modifier ≠ .iri Sh.inversePath).isSome :=
    List.find?_isSome.mpr ⟨_, marked, by simpa using other⟩
  obtain ⟨mark, found⟩ := Option.isSome_iff_exists.mp found
  cases element with
  | iri value => exact absurd blank (by simp [Term.isBlank])
  | literal value => exact absurd blank (by simp [Term.isBlank])
  | blank label =>
    refine ⟨.unsupportedModifier mark.modifier place.root, ?_⟩
    rw [hop, only]
    simp only [found, Term.isIri, Term.isBlank, Bool.false_eq_true, if_false, Bool.not_true]

end CellRows.Tells

/-! ## The error of a question -/

namespace AsksCell

variable {patterns : List TriplePattern} {cell : Variable} {schema : Dataset} {reach : Place → Prop}

theorem unsupported_of_hopsOf (asks : AsksCell patterns cell)
    (finds : ∀ place element, Finds schema patterns cell place element ↔
      reach place ∧ (schema.graph none).Edge (.iri Rdf.first) place.cell element) {error : FormError}
    (failed : hopsOf cell (schema.select (Question.marked patterns)) = .error error) :
    ∃ place modifier, reach place ∧ (schema.graph none).Unsupported place.cell modifier ∧
      error = .unsupportedModifier modifier place.root := by
  obtain ⟨place, member, step⟩ := exists_of_mapM_eq_error failed
  obtain ⟨element, found⟩ := asks.mem_places.mp member
  obtain ⟨reached, -⟩ := (finds place element).mp found
  obtain ⟨modifier, unsupported, same⟩ :=
    (asks.tells reached finds).unsupported_of_hop (return_eq_error.mp step)
  exact ⟨place, modifier, reached, unsupported, same⟩

theorem exists_error_of_unsupported (asks : AsksCell patterns cell)
    (finds : ∀ place element, Finds schema patterns cell place element ↔
      reach place ∧ (schema.graph none).Edge (.iri Rdf.first) place.cell element) (place : Place)
    {modifier : Term} (reached : reach place)
    (unsupported : (schema.graph none).Unsupported place.cell modifier) :
    ∃ error, hopsOf cell (schema.select (Question.marked patterns)) = .error error := by
  have ⟨element, alone, _⟩ := unsupported
  have here : place ∈ CellRows.places cell (schema.select (Question.marked patterns)) :=
    asks.mem_places.mpr ⟨element, (finds place element).mpr ⟨reached, (alone element).mpr rfl⟩⟩
  obtain ⟨error, failed⟩ := (asks.tells reached finds).exists_error unsupported
  cases outcome : hopsOf cell (schema.select (Question.marked patterns)) with
  | error other => exact ⟨other, rfl⟩
  | ok hops =>
    obtain ⟨entry, entered⟩ := (mapM_eq_ok outcome).1 place here
    obtain ⟨hop, succeeded, -⟩ := return_eq_ok.mp entered
    exact absurd (failed.symm.trans succeeded) nofun

end AsksCell

/-! ## The error of a schema -/

section
variable {schema : Dataset} {kind : RootKind} {error : FormError}

theorem Lists.ofSchema_eq_error : ofSchema schema kind = .error error ↔
    hopsOf Question.list (schema.select (Question.marked (Question.headPatterns kind))) = .error error ∨
      (∃ heads, hopsOf Question.list (schema.select (Question.marked (Question.headPatterns kind))) =
        .ok heads) ∧
      hopsOf Question.cell (schema.select (Question.marked (Question.tailPatterns kind))) =
        .error error := by
  have unfolded : ofSchema schema kind = (do
      let heads ← hopsOf Question.list (schema.select (Question.marked (Question.headPatterns kind)))
      let tails ← hopsOf Question.cell (schema.select (Question.marked (Question.tailPatterns kind)))
      return ⟨heads, tails, (schema.select (Question.tails kind)).filterMap fun row => do
        return (← row.get? Question.previous, ← row.get? Question.cell)⟩) := rfl
  rw [unfolded]
  cases hopsOf Question.list (schema.select (Question.marked (Question.headPatterns kind))) with
  | error other => simp [bind, Except.bind]
  | ok heads =>
    cases hopsOf Question.cell (schema.select (Question.marked (Question.tailPatterns kind))) <;>
      simp [bind, Except.bind, pure, Except.pure]

/-- A schema has an error where the questions about its cells have one. -/
theorem Dataset.resolve_eq_error :
    schema.resolve kind = .error error ↔ Lists.ofSchema schema kind = .error error := by
  rw [resolve, resolveRoots]
  cases Lists.ofSchema schema kind with
  | error other => simp [bind, Except.bind]
  | ok lists => cases kind <;> simp [bind, Except.bind, pure, Except.pure]

/-- An error of a schema names a modifier and a root of an unsupported cell. -/
theorem exists_unsupported_of_resolve (failed : schema.resolve kind = .error error) :
    ∃ root cell modifier, (schema.graph none).Contains kind root cell ∧
      (schema.graph none).Unsupported cell modifier ∧ error = .unsupportedModifier modifier root := by
  rcases Lists.ofSchema_eq_error.mp (Dataset.resolve_eq_error.mp failed) with heads | ⟨-, tails⟩
  · obtain ⟨place, modifier, starts, unsupported, same⟩ :=
      (Question.asks_heads kind).unsupported_of_hopsOf (fun _ _ => Question.finds_heads) heads
    exact ⟨_, _, modifier, Graph.contains_iff.mpr (.inl starts), unsupported, same⟩
  · obtain ⟨place, modifier, follows, unsupported, same⟩ :=
      (Question.asks_tails kind).unsupported_of_hopsOf (fun _ _ => Question.finds_tails) tails
    exact ⟨_, _, modifier, Graph.contains_iff.mpr (.inr follows), unsupported, same⟩

/-- An unsupported cell is an error of the schema, wherever it stands. -/
theorem exists_resolve_eq_error {root cell modifier : Term}
    (inside : (schema.graph none).Contains kind root cell)
    (unsupported : (schema.graph none).Unsupported cell modifier) :
    ∃ error, schema.resolve kind = .error error := by
  simp only [Dataset.resolve_eq_error, Lists.ofSchema_eq_error]
  rcases Graph.contains_iff.mp inside with starts | follows
  · obtain ⟨error, failed⟩ := (Question.asks_heads kind).exists_error_of_unsupported
      (fun _ _ => Question.finds_heads) ⟨root, cell⟩ starts unsupported
    exact ⟨error, .inl failed⟩
  · obtain ⟨error, failed⟩ := (Question.asks_tails kind).exists_error_of_unsupported
      (fun _ _ => Question.finds_tails) ⟨root, cell⟩ follows unsupported
    -- An error among the first cells comes before the one that is known among the later cells.
    cases heads : hopsOf Question.list
        (schema.select (Question.marked (Question.headPatterns kind))) with
    | error other => exact ⟨other, .inl rfl⟩
    | ok found => exact ⟨error, .inr ⟨⟨found, rfl⟩, failed⟩⟩

/-- The resolution of a schema fails exactly where some cell of some list is unsupported, and then
its error names a modifier and a root of such a cell. Nothing else makes it fail. -/
theorem resolve_error_iff_unsupported (schema : Dataset) (kind : RootKind)
    (valid : ∀ t ∈ schema.graph none, t.isValid) :
    ((∃ error, schema.resolve kind = .error error) ↔ ∃ root cell modifier,
      (schema.graph none).Contains kind root cell ∧
        (schema.graph none).Unsupported cell modifier) ∧
    ∀ error, schema.resolve kind = .error error → ∃ root cell modifier,
      (schema.graph none).Contains kind root cell ∧
        (schema.graph none).Unsupported cell (.iri modifier) ∧
        error = .unsupportedModifier (.iri modifier) root ∧
        error.message = "unsupported path modifier <" ++ modifier ++ "> in path of " ++ root.text := by
  refine ⟨⟨?_, ?_⟩, ?_⟩
  · rintro ⟨error, failed⟩
    obtain ⟨root, cell, modifier, inside, unsupported, -⟩ := exists_unsupported_of_resolve failed
    exact ⟨root, cell, modifier, inside, unsupported⟩
  · rintro ⟨root, cell, modifier, inside, unsupported⟩
    exact exists_resolve_eq_error inside unsupported
  · intro error failed
    obtain ⟨root, cell, modifier, inside, unsupported, same⟩ := exists_unsupported_of_resolve failed
    have ⟨element, _, _, _, target, said⟩ := unsupported
    have isIri : modifier.isIri := (Bool.and_eq_true_iff.mp (valid _ said)).1
    cases modifier with
    | iri value => exact ⟨root, cell, value, inside, unsupported, same, by rw [same]; rfl⟩
    | blank label => exact absurd isIri (by simp [Term.isIri])
    | literal value => exact absurd isIri (by simp [Term.isIri])

/-- A field whose list runs in a circle, with an element that is to be repeated in its second cell. -/
def circularSchema : Dataset := .ofGraph <| .ofList
  [⟨.iri "f", .iri Rdf.type, .iri FormNs.field⟩, ⟨.iri "f", .iri Sh.path, .blank "c"⟩,
    ⟨.blank "c", .iri Rdf.first, .iri "p"⟩, ⟨.blank "c", .iri Rdf.rest, .blank "d"⟩,
    ⟨.blank "d", .iri Rdf.first, .blank "x"⟩, ⟨.blank "x", .iri "zeroOrMore", .iri "q"⟩,
    ⟨.blank "d", .iri Rdf.rest, .blank "c"⟩]

theorem edge_circularSchema {a b predicate : Term} :
    (circularSchema.graph none).Edge predicate a b ↔
      a = .iri "f" ∧ predicate = .iri Rdf.type ∧ b = .iri FormNs.field ∨
      a = .iri "f" ∧ predicate = .iri Sh.path ∧ b = .blank "c" ∨
      a = .blank "c" ∧ predicate = .iri Rdf.first ∧ b = .iri "p" ∨
      a = .blank "c" ∧ predicate = .iri Rdf.rest ∧ b = .blank "d" ∨
      a = .blank "d" ∧ predicate = .iri Rdf.first ∧ b = .blank "x" ∨
      a = .blank "x" ∧ predicate = .iri "zeroOrMore" ∧ b = .iri "q" ∨
      a = .blank "d" ∧ predicate = .iri Rdf.rest ∧ b = .blank "c" := by
  simp [Graph.Edge, circularSchema, Dataset.ofGraph, Dataset.graph_setGraph]

/-- The circle alone would leave the field out; the element makes the whole schema fail. -/
theorem resolve_error_iff_unsupported_circularSchema :
    (∀ t ∈ circularSchema.graph none, t.isValid) ∧ ∃ error,
      circularSchema.resolve .field = .error error ∧
        error.message = "unsupported path modifier <zeroOrMore> in path of <f>" := by
  have first : ∀ a b, (circularSchema.graph none).Edge (.iri Rdf.first) a b ↔
      a = .blank "c" ∧ b = .iri "p" ∨ a = .blank "d" ∧ b = .blank "x" := fun a b => by
    simp [edge_circularSchema, Rdf.first, Rdf.type, Rdf.rest, Sh.path]
  have valid : ∀ t ∈ circularSchema.graph none, t.isValid := by
    simp [circularSchema, Dataset.ofGraph, Dataset.graph_setGraph, Triple.isValid, Term.isIri,
      Term.isLiteral]
  obtain ⟨failing, named⟩ := resolve_error_iff_unsupported circularSchema .field valid
  have inside : (circularSchema.graph none).Contains .field (.iri "f") (.blank "d") :=
    ⟨.blank "c", ⟨edge_circularSchema.mpr (by simp), edge_circularSchema.mpr (by simp)⟩,
      .single (edge_circularSchema.mpr (by simp))⟩
  have unsupported : (circularSchema.graph none).Unsupported (.blank "d") (.iri "zeroOrMore") := by
    refine ⟨.blank "x", fun other => by simp [first], rfl, by decide, .iri "q", ?_⟩
    exact edge_circularSchema.mpr (by simp)
  obtain ⟨error, failed⟩ := failing.mpr ⟨_, _, _, inside, unsupported⟩
  obtain ⟨root, cell, modifier, ⟨list, ⟨isRoot, -⟩, -⟩, ⟨element, alone, blank, -, target, said⟩, -,
    message⟩ := named error failed
  obtain rfl : root = .iri "f" := by
    rcases edge_circularSchema.mp isRoot with h | h | h | h | h | h | h <;> simp_all [FormNs.field]
  obtain rfl : element = .blank "x" := by
    rcases (first _ _).mp ((alone element).mpr rfl) with ⟨-, rfl⟩ | ⟨-, rfl⟩
    · exact absurd blank (by decide)
    · rfl
  have edge : (circularSchema.graph none).Edge (.iri modifier) (.blank "x") target := said
  obtain ⟨rfl, -⟩ : modifier = "zeroOrMore" ∧ target = .iri "q" := by
    simpa [edge_circularSchema] using edge
  exact ⟨valid, error, failed, message⟩

end
end Formulary
