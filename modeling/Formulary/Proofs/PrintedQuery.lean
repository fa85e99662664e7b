import Formulary.CommandLine
import Formulary.Proofs.ForkedLists
import Formulary.Proofs.QueryRoundTrip

/-!
# The query that is printed

The query command prints the query that it evaluates where data are given. Its arguments are hardly
looked at: any text without white space passes for an IRI, any text at all for the name of a variable,
and both are printed as they are. So the text is read back as the query for the arguments that may
stand in SPARQL, and for no others (`CommandLine.printed_query_iff`).
-/

namespace Formulary
open Grammar

/-! ## Predicates of a schema -/

namespace Graph

variable {g : Graph} {cell root : Term} {step : Step} {chain : Chain}

/-- Every IRI of the graph may stand in SPARQL. -/
def HasSparqlIris (g : Graph) : Prop :=
  ∀ t ∈ g, ∀ term ∈ [t.subject, t.predicate, t.object], term.isIri → term.IsSparql

/-- The predicate is an IRI and an object of the graph. -/
def IsObject (g : Graph) (predicate : Term) : Prop := predicate.isIri ∧ ∃ t ∈ g, t.object = predicate

theorem isObject_of_stepOf {element : Term} {t : Triple} (member : t ∈ g) (object : t.object = element)
    (stands : g.stepOf element = .ok step) : g.IsObject step.predicate := by
  match element, stands with
  | .iri value, stands =>
    obtain rfl := Except.ok.inj stands
    exact ⟨rfl, t, member, object⟩
  | .blank label, stands =>
    obtain ⟨target, about, isIri, rfl⟩ := stepOf_blank_eq_ok.mp stands
    exact ⟨isIri, _, ((about _).mpr rfl).1, rfl⟩

theorem isObject_of_decode? (carries : g.decode? cell = some (.ok step)) : g.IsObject step.predicate := by
  obtain ⟨element, only, stands⟩ := decode?_eq_ok.mp carries
  exact isObject_of_stepOf ((only element).mpr rfl) rfl stands

theorem Passes.isObject (passes : g.Passes cell chain) : ∀ step ∈ chain, g.IsObject step.predicate := by
  induction passes with
  | last carries => exact List.forall_mem_singleton.mpr (isObject_of_decode? carries)
  | more carries _ _ _ ih => exact List.forall_mem_cons.mpr ⟨isObject_of_decode? carries, ih⟩

theorem isObject_of_outcome (made : g.outcome root = .ok chain) :
    ∀ step ∈ chain, g.IsObject step.predicate := by
  rcases outcome_eq_ok.mp made with ⟨predicate, only, rfl⟩ | ⟨label, -, passes⟩
  · exact List.forall_mem_singleton.mpr ⟨rfl, ⟨root, .iri Sh.path, .iri predicate⟩, (only _).mpr rfl, rfl⟩
  · exact passes.isObject

end Graph

/-- The predicates of the paths that a schema declares may stand in SPARQL if its IRIs may. -/
theorem Dataset.isSparql_of_paths {schema : Dataset} {chains : PathMap}
    (plain : (schema.graph none).HasSparqlIris) (resolved : schema.paths .field = .ok chains) :
    ∀ chain ∈ chains.values, ∀ step ∈ chain, step.predicate.IsSparql := by
  obtain ⟨resolution, resolves, rfl⟩ := map_eq_ok.mp resolved
  intro _ listed step member
  obtain ⟨⟨key, chain⟩, entry, rfl⟩ := List.mem_map.mp listed
  have recorded : resolution.Records key (.ok chain) := SortedMap.get?_eq_some_iff.mpr entry
  obtain ⟨field, -, -, made⟩ := (records_field_iff resolves).mp recorded
  obtain ⟨isIri, t, inside, object⟩ := Graph.isObject_of_outcome made.symm step member
  exact plain t inside _ (by simp [object]) isIri

/-! ## The command -/

namespace CommandLine
open Grammar.Sparql

variable {value what : String} {slot : Slot} {term : Term}

theorem isIri_of_iriArgument (accepted : iriArgument value what = .ok term) : term.isIri := by
  dsimp only [iriArgument] at accepted
  split at accepted
  · cases accepted
  · obtain rfl := Except.ok.inj accepted
    rfl

theorem isArgument_of_rootArgument (accepted : rootArgument value = .ok slot) : IsArgument slot := by
  rw [rootArgument] at accepted
  split at accepted
  · cases accepted
  · obtain rfl := Except.ok.inj accepted
    trivial
  · obtain ⟨term, made, rfl⟩ := map_eq_ok.mp accepted
    exact isIri_of_iriArgument made

/-- What the query command prints for accepted arguments is the text of the query that it evaluates
where data are given. The text is read back as that query exactly if both arguments may stand in SPARQL:
the name of a variable has only characters of such names, an IRI only those that stand between angle
brackets. -/
theorem printed_query_iff (i : Invocation) (deletes : Bool) {files : Files} {path root type : String}
    {config : Config} {schema : Dataset} {chains : PathMap} {slot : Slot} {term : Term}
    (configured : readConfig files i.config = .ok config)
    (read : readDataset files i.format path = .ok schema)
    (plain : (schema.graph none).HasSparqlIris) (resolved : schema.paths .field = .ok chains)
    (rooted : rootArgument root = .ok slot) (typed : iriArgument type "--type" = .ok term) :
    let q := InstanceQuery.build chains slot term deletes
    { i with command := .query path root type deletes none }.run files = .report { out := q.text } ∧
    (∀ place data, readDataset files i.format place = .ok data →
      { i with command := .query path root type deletes (some place) }.run files =
        .report (matched i.json (q.matched data))) ∧
    (readQuery? q.text.toList = some q ↔ slot.IsSparql ∧ term.IsSparql) := by
  intro q
  have asked : queryOf schema root type deletes = .ok q := by
    rw [queryOf, resolved, rooted, typed]
    rfl
  refine ⟨?_, fun place data readData => ?_, ?_⟩
  · simp [Invocation.run, execute, configured, read, asked, bind, Except.bind, pure, Except.pure]
  · simp [Invocation.run, execute, configured, read, asked, readData, bind, Except.bind, pure,
      Except.pure]
  · exact InstanceQuery.readQuery?_build_iff (isArgument_of_rootArgument rooted)
      (isIri_of_iriArgument typed) (Dataset.isSparql_of_paths plain resolved)

/-! ### A schema with one field -/

/-- A field whose path is one predicate. -/
def titleField : List Triple :=
  [⟨.iri "urn:f", .iri Rdf.type, .iri FormNs.field⟩, ⟨.iri "urn:f", .iri Sh.path, .iri "urn:title"⟩]

def titleFiles : Files := fun path =>
  if path = "s.nt" then
    some ("<urn:f> <" ++ Rdf.type ++ "> <" ++ FormNs.field ++ "> .\n" ++
      "<urn:f> <" ++ Sh.path ++ "> <urn:title> .\n")
  else none

set_option maxRecDepth 2000 in
theorem readDataset_titleFiles :
    readDataset titleFiles none "s.nt" = .ok (.ofGraph (.ofList titleField)) := by rfl

theorem hasSparqlIris_titleField :
    ((Dataset.ofGraph (.ofList titleField)).graph none).HasSparqlIris := by
  have each : ∀ t ∈ titleField, ∀ term ∈ [t.subject, t.predicate, t.object],
      term.isIri → term.IsSparql := by decide
  intro t member
  rw [Dataset.graph_ofGraph, if_pos rfl, SortedSet.mem_ofList] at member
  exact each t member

/-- The query for every document is printed so that it can be read back. The name of a variable may
have a blank in it; what is printed is then not read as the query. -/
theorem printed_query_iff_titleField :
    let i (root : String) : Invocation :=
      { command := .query "s.nt" root "<urn:Document>" true none }
    let q (name : String) : InstanceQuery := .build
      (.ofList [(.field (.iri "urn:f"), [.forward (.iri "urn:title")])]) (.var ⟨name⟩)
      (.iri "urn:Document") true
    (i "?instance").run titleFiles = .report { out := (q "instance").text } ∧
    readQuery? (q "instance").text.toList = some (q "instance") ∧
    (i "?a b").run titleFiles = .report { out := (q "a b").text } ∧
    readQuery? (q "a b").text.toList ≠ some (q "a b") := by
  intro i q
  have resolved : (Dataset.ofGraph (.ofList titleField)).paths .field =
    .ok (.ofList [(.field (.iri "urn:f"), [.forward (.iri "urn:title")])]) := by rfl
  have configured : readConfig titleFiles none = .ok {} := rfl
  have typed : iriArgument "<urn:Document>" "--type" = .ok (.iri "urn:Document") := rfl
  have named : rootArgument "?instance" = .ok (.var ⟨"instance"⟩) := rfl
  have blank : rootArgument "?a b" = .ok (.var ⟨"a b"⟩) := rfl
  obtain ⟨printed, -, whole⟩ := printed_query_iff (i "?instance") true configured
    readDataset_titleFiles hasSparqlIris_titleField resolved named typed
  obtain ⟨printed', -, whole'⟩ := printed_query_iff (i "?a b") true configured
    readDataset_titleFiles hasSparqlIris_titleField resolved blank typed
  refine ⟨printed, whole.mpr ⟨by decide, by decide⟩, printed', fun same => ?_⟩
  exact absurd (whole'.mp same).1 (by decide)

/-! ### An argument that goes on -/

/-- An argument that passes for an IRI, though a bracket of its own ends it. -/
def smuggledRoot : String := "urn:a><urn:p>?o.<urn:b"

/-- The pattern that stands in the argument after that bracket. -/
def smuggledPattern : TriplePattern :=
  ⟨.term (.iri "urn:a"), .term (.iri "urn:p"), .var ⟨"o"⟩⟩

/-- The query for a root where no field has a path, with other patterns in front of each of its own. -/
def fieldlessQuery (front : List TriplePattern) (root : Slot) (deletes : Bool) : InstanceQuery :=
  let typed := front ++ [⟨root, .term (.iri Rdf.type), .term (.iri "urn:Document")⟩]
  let dated := front ++ [⟨root, .term (.iri Dct.modified), .var ⟨"modified"⟩⟩]
  { deletes, template := typed ++ dated
    body := { patterns := typed, optionals := [{ optionals := [{ patterns := dated }] }] } }

/-- The argument is read as the pattern in it, and as another IRI after that. -/
theorem spells_smuggledRoot : sparql.Spells (Term.iri smuggledRoot).text.toList
    (smuggledPattern.tokens ++ (Term.iri "urn:b").tokens) := by
  intro rest ends
  have last : sparql.Spells ('<' :: ("urn:b".toList ++ ['>']))
      [.reference "urn:b".toList] := Lexicon.spells_reference (by decide)
  have stop : ∀ more, sparql.tokens? ('.' :: more) = (sparql.tokens? more).map (.mark '.' :: ·) :=
    fun more => Lexicon.tokens?_token rfl (by decide) (Nat.le_refl _) rfl
  have name : ∀ more, sparql.tokens? ('?' :: 'o' :: '.' :: more) =
      (sparql.tokens? ('.' :: more)).map (.word "?o" :: ·) :=
    fun more => Lexicon.tokens?_token rfl (by decide) (by simp) rfl
  have text : (Term.iri smuggledRoot).text.toList ++ rest = '<' :: ("urn:a".toList ++ '>' ::
      '<' :: ("urn:p".toList ++ '>' :: '?' :: 'o' :: '.' ::
        ('<' :: ("urn:b".toList ++ ['>']) ++ rest))) := rfl
  rw [text, Lexicon.tokens?_token rfl (by decide) (by simp) (Lexicon.token?_reference (by decide)),
    Lexicon.tokens?_token rfl (by decide) (by simp) (Lexicon.token?_reference (by decide)), name, stop,
    last rest ends]
  simp [Function.comp_def, smuggledPattern, TriplePattern.tokens, Slot.tokens, Verb.tokens]

/-- The query for the argument is read as one for another instance, with the smuggled pattern in front
of each pattern. -/
theorem readQuery?_smuggledRoot (deletes : Bool) :
    readQuery? (fieldlessQuery [] (.term (.iri smuggledRoot)) deletes).text.toList =
      some (fieldlessQuery [smuggledPattern] (.term (.iri "urn:b")) deletes) := by
  let each (p : TriplePattern) : List Token := smuggledPattern.tokens ++
    (Term.iri "urn:b").tokens ++ (p.verb.tokens ++ (p.object.tokens ++ [.mark '.']))
  have spells : ∀ p ∈ [(⟨.term (.iri smuggledRoot), .term (.iri Rdf.type),
        .term (.iri "urn:Document")⟩ : TriplePattern),
      ⟨.term (.iri smuggledRoot), .term (.iri Dct.modified), .var ⟨"modified"⟩⟩],
      sparql.Spells p.text.toList (each p) := by
    refine List.forall_mem_cons.mpr ⟨?_, List.forall_mem_singleton.mpr ?_⟩
    · exact TriplePattern.spells_parts spells_smuggledRoot
        (Verb.IsSparql.spells_text (v := .term (.iri Rdf.type)) (by decide))
        (Slot.IsSparql.spells_text (s := .term (.iri "urn:Document")) (by decide))
    · exact TriplePattern.spells_parts spells_smuggledRoot
        (Verb.IsSparql.spells_text (v := .term (.iri Dct.modified)) (by decide))
        (Slot.IsSparql.spells_text (s := .var ⟨"modified"⟩) (by decide))
  have whole := InstanceQuery.spells_text (q := fieldlessQuery [] (.term (.iri smuggledRoot)) deletes)
    (List.forall_mem_append.mpr ⟨spells, spells⟩)
  have tokens : (fieldlessQuery [] (.term (.iri smuggledRoot)) deletes).tokens each =
      (fieldlessQuery [smuggledPattern] (.term (.iri "urn:b")) deletes).tokens
        TriplePattern.tokens := by
    cases deletes <;> simp [fieldlessQuery, InstanceQuery.tokens, Group.blockTokens, Group.tokens,
      Group.optionalTokens, each, TriplePattern.tokens, Slot.tokens, Verb.tokens]
  rw [tokens] at whole
  have legal : ∀ deletes,
      (fieldlessQuery [smuggledPattern] (.term (.iri "urn:b")) deletes).IsSparql := by decide
  exact readWhole?_eq whole (query?_tokens (legal deletes) (Nat.le_add_right _ 2))

/-- The argument is accepted, here with a schema that declares nothing. What is printed for it is read
as another query than the one that is evaluated: where that one selects nothing, the one that is read
selects a triple about a node without the type asked for. -/
theorem smuggled_root_read_otherwise :
    let files : Files := fun path => if path = "s.ttl" then some "" else none
    let asked (deletes : Bool) : InstanceQuery :=
      .build ∅ (.term (.iri smuggledRoot)) (.iri "urn:Document") deletes
    let understood (deletes : Bool) : InstanceQuery :=
      fieldlessQuery [smuggledPattern] (.term (.iri "urn:b")) deletes
    let data : List Triple := [⟨.iri "urn:a", .iri "urn:p", .plain "kept"⟩,
      ⟨.iri "urn:b", .iri Rdf.type, .iri "urn:Document"⟩]
    readDataset files none "s.ttl" = .ok ∅ ∧ ((∅ : Dataset).graph none).HasSparqlIris ∧
    rootArgument smuggledRoot = .ok (.term (.iri smuggledRoot)) ∧
    (∀ deletes, Invocation.run
        { command := .query "s.ttl" smuggledRoot "urn:Document" deletes none } files =
          .report { out := (asked deletes).text } ∧
      readQuery? (asked deletes).text.toList = some (understood deletes) ∧
      (understood deletes).template ≠ (asked deletes).template) ∧
    (asked true).matched (.ofGraph (.ofList data)) = ∅ ∧
    (understood true).matched (.ofGraph (.ofList data)) = .ofList data := by
  intro files asked understood data
  have fieldless : ∀ deletes, asked deletes = fieldlessQuery [] (.term (.iri smuggledRoot)) deletes :=
    fun _ => rfl
  refine ⟨rfl, fun t member => absurd member SortedSet.not_mem_empty, rfl,
    fun deletes => ⟨rfl, ?_, ?_⟩, by decide, by decide⟩
  · rw [fieldless]
    exact readQuery?_smuggledRoot deletes
  · cases deletes <;> decide

end CommandLine
end Formulary
