import Formulary.Proofs.AddedField

/-!
# Two fields with lists

The cells of a field's list are labelled by a digest of its IRI. Two fields whose IRIs have different
digests have no cell in common, and each resolves to the chain that it was declared with. Where the
digests are the same the two lists start at one cell, which can be passed in one way only: both fields
resolve to their own chains just where these are the same (`two_fields_resolve_iff`).
-/

namespace Formulary
open Std

namespace FieldDefinition

/-! ## Nodes of two fields -/

variable {field other : Term} {start : Nat} {chain : Chain} {s t : Triple}

/-- Everything that is written of a list is about nodes with the stem of its field. -/
theorem exists_label_of_mem (written : t ∈ listTriples field start chain) :
    ∃ rest, t.subject = .blank (stem field ++ rest) := by
  obtain ⟨before, step, later, -, rfl | rfl | ⟨-, rfl⟩⟩ := mem_listTriples.mp written
  · exact ⟨_, by rw [cell, String.append_assoc]⟩
  · exact ⟨_, by rw [cell, String.append_assoc]⟩
  · exact ⟨_, by rw [stepNode, String.append_assoc]⟩

theorem stem_of_subject {i j : Nat} {one two : Chain} (here : s ∈ listTriples field i one)
    (there : t ∈ listTriples other j two) (same : s.subject = t.subject) :
    stem field = stem other := by
  obtain ⟨rest, first⟩ := exists_label_of_mem here
  obtain ⟨more, second⟩ := exists_label_of_mem there
  rw [first, second] at same
  exact (stem_of_label same).1

/-- The element of a cell is written for a step of the list. -/
theorem exists_elementOf_of_mem {a b : Term}
    (written : ⟨a, .iri Rdf.first, b⟩ ∈ listTriples field start chain) :
    ∃ step ∈ chain, ∃ index, b = elementOf field index step := by
  obtain ⟨before, step, later, rfl, same | same | ⟨-, same⟩⟩ := mem_listTriples.mp written
  · exact ⟨step, by simp, _, congrArg Triple.object same⟩
  · exact absurd (Term.iri.inj (congrArg Triple.predicate same)) (by decide)
  · exact absurd (Term.iri.inj (congrArg Triple.predicate same)) (by decide)

/-- Of a step back just its inverse path is written. -/
theorem predicate_of_stepNode {index : Nat} (written : t ∈ listTriples field start chain)
    (about : t.subject = stepNode other index) : t.predicate = .iri Sh.inversePath := by
  obtain ⟨before, step, later, -, rfl | rfl | ⟨-, rfl⟩⟩ := mem_listTriples.mp written
  · exact absurd about cell_ne_stepNode
  · exact absurd about cell_ne_stepNode
  · rfl

/-- Of a field only its stem is written into its list. -/
theorem listTriples_congr (same : stem field = stem other) :
    listTriples field start chain = listTriples other start chain := by
  induction chain generalizing start with
  | nil => rfl
  | cons step rest ih => simp only [listTriples, cell, stepNode, same, ih]

/-- The field is named by an IRI, and its path is a list of some steps along IRIs. -/
structure HasList (d : FieldDefinition) (chain : Chain) : Prop where
  named : d.uri.isIri
  path : d.path = .list chain
  occupied : chain ≠ []
  isIri : ∀ step ∈ chain, step.predicate.isIri

theorem HasList.fault?_eq_none {d : FieldDefinition} (list : d.HasList chain) : d.fault? = none :=
  FieldDefinition.fault?_eq_none.mpr ⟨list.named, by simpa [list.path, Path.chain] using
    ⟨list.occupied, list.isIri⟩⟩

/-- A blank element is made for a step back. -/
theorem HasList.exists_stepNode {d : FieldDefinition} {a b : Term} (list : d.HasList chain)
    (written : ⟨a, .iri Rdf.first, b⟩ ∈ listTriples d.uri 0 chain) (blank : b.isBlank) :
    ∃ field index, b = stepNode field index := by
  obtain ⟨⟨predicate, _ | _⟩, member, index, rfl⟩ := exists_elementOf_of_mem written
  · exact absurd blank (Term.not_isBlank_of_isIri (list.isIri _ member))
  · exact ⟨d.uri, index, rfl⟩

theorem HasList.pathValue {d : FieldDefinition} (list : d.HasList chain) :
    d.pathValue = (cell d.uri 0, listTriples d.uri 0 chain) := by
  rw [FieldDefinition.pathValue, list.path]

end FieldDefinition

/-! ## What is said of two fields -/

namespace Graph
open FieldDefinition

/-- The graph holds what two definitions say of different fields with lists, and no more. -/
structure DeclaresBoth (g : Graph) (form : Term) (one two : FieldDefinition) (first second : Chain) :
    Prop where
  isIri : form.isIri
  here : one.HasList first
  there : two.HasList second
  different : one.uri ≠ two.uri
  mem : ∀ t, t ∈ g ↔ t ∈ one.triples form ∨ t ∈ two.triples form

namespace DeclaresBoth

variable {g : Graph} {form a b root cell : Term} {one two : FieldDefinition} {first second : Chain}
  {t : Triple} {predicate : String}

theorem symm (both : g.DeclaresBoth form one two first second) :
    g.DeclaresBoth form two one second first where
  isIri := both.isIri
  here := both.there
  there := both.here
  different := both.different.symm
  mem t := (both.mem t).trans or_comm

section
variable (both : g.DeclaresBoth form one two first second)
include both

/-- What is said of blank nodes is written for one of the lists. -/
theorem mem_iff_of_isBlank (blank : t.subject.isBlank) :
    t ∈ g ↔ t ∈ listTriples one.uri 0 first ∨ t ∈ listTriples two.uri 0 second := by
  have listed : ∀ {d : FieldDefinition} {chain : Chain}, d.HasList chain →
      (t ∈ d.triples form ↔ t ∈ listTriples d.uri 0 chain) := fun {d chain} list => by
    have value : d.pathValue.2 = listTriples d.uri 0 chain := by rw [list.pathValue]
    rw [← value]
    exact ⟨fun new => Fits.mem_pathValue_of_isBlank both.isIri list.named new blank,
      fun written => mem_triples.mpr (.inl written)⟩
  rw [both.mem, listed both.here, listed both.there]

/-- Of a field its description is said, and nothing else that paths are made of. -/
theorem edge_field_iff (other : predicate ≠ FormNs.includes) :
    g.Edge (.iri predicate) one.uri b ↔ (predicate, b) ∈ one.description := by
  have unlisted : ∀ {d : FieldDefinition}, ⟨one.uri, .iri predicate, b⟩ ∉ d.pathValue.2 :=
    not_mem_pathValue_of_isIri both.here.named
  rw [Edge, both.mem, mem_triples_of_ne other, mem_triples_of_ne other, or_iff_right unlisted,
    or_iff_right unlisted, and_iff_right rfl]
  exact or_iff_left fun described => both.different described.1

theorem path_iff : g.Edge (.iri Sh.path) one.uri b ↔ b = FieldDefinition.cell one.uri 0 := by
  rw [both.edge_field_iff (by decide)]
  simp [description, both.here.pathValue, Sh.path, Rdf.type, Sh.name, FormNs.displayType, Sh.order,
    Sh.group]

/-- Only the two fields have a type. -/
theorem isRoot_iff : g.IsRoot .field root ↔ root = one.uri ∨ root = two.uri := by
  constructor
  · intro isRoot
    have typed : ∀ {d : FieldDefinition},
        ⟨root, .iri Rdf.type, .iri FormNs.field⟩ ∈ d.triples form → root = d.uri := fun new => by
      rcases (mem_triples_of_ne (by decide)).mp new with written | ⟨same, -⟩
      · obtain ⟨verb, listed, same⟩ := listing_of_mem written
        obtain rfl := Term.iri.inj same
        exact absurd listed (by decide)
      · exact same
    exact ((both.mem _).mp isRoot).imp typed typed
  · rintro (rfl | rfl)
    · exact (both.edge_field_iff (by decide)).mpr (by simp [description])
    · exact (both.symm.edge_field_iff (by decide)).mpr (by simp [description])

/-- Lists are made of blank nodes. -/
theorem isBlank_of_edge (listed : predicate ∈ listing) (edge : g.Edge (.iri predicate) a b) :
    a.isBlank := by
  have undescribed : ∀ verb ∈ listing, verb ∉ describing ∧ verb ≠ FormNs.includes := by decide
  obtain ⟨notDescribing, notIncludes⟩ := undescribed predicate listed
  have blank : ∀ {d : FieldDefinition}, ⟨a, .iri predicate, b⟩ ∈ d.triples form → a.isBlank :=
    fun new => by
      rcases (mem_triples_of_ne notIncludes).mp new with written | ⟨-, described⟩
      · exact isBlank_of_mem_pathValue written
      · exact absurd (describing_of_mem described) notDescribing
  exact ((both.mem _).mp edge).elim blank blank

theorem bare (element : Term) : ¬ g.Edge (.iri Rdf.first) (.iri Rdf.nil) element := fun edge =>
  absurd (both.isBlank_of_edge (by decide) edge) nofun

/-! ## Their lists -/

/-- No cell has an element of which something else than `sh:inversePath` is said. -/
theorem supported (cell : Term) : g.Supported cell := by
  intro element edge blank t about
  obtain ⟨member, rfl⟩ := mem_about.mp about
  obtain ⟨field, index, made⟩ : ∃ field index, t.subject = stepNode field index := by
    have isCell : cell.isBlank := both.isBlank_of_edge (by decide) edge
    exact ((both.mem_iff_of_isBlank isCell).mp edge).elim (both.here.exists_stepNode · blank)
      (both.there.exists_stepNode · blank)
  exact ((both.mem_iff_of_isBlank blank).mp member).elim (predicate_of_stepNode · made)
    (predicate_of_stepNode · made)

/-- A list is written as it is where the other one has other nodes, or is the same list. -/
theorem spells (apart : stem one.uri ≠ stem two.uri ∨ first = second) :
    g.Spells one.uri first where
  written t written := by
    obtain ⟨label, about⟩ := exists_label_of_mem written
    exact (both.mem_iff_of_isBlank (about ▸ rfl)).mpr (.inl written)
  only t member := by
    rintro ⟨s, written, about⟩
    obtain ⟨label, named⟩ := exists_label_of_mem written
    have blank : t.subject.isBlank := by rw [← about, named]; rfl
    rcases (both.mem_iff_of_isBlank blank).mp member with here | there
    · exact here
    · have same := stem_of_subject written there about
      obtain rfl := apart.resolve_left (absurd same)
      rwa [listTriples_congr same]
  bare := both.bare

theorem outcome_of_apart (apart : stem one.uri ≠ stem two.uri ∨ first = second) :
    g.outcome one.uri = .ok first :=
  outcome_eq_ok.mpr (.inr ⟨_, fun _ => both.path_iff,
    (both.spells apart).passes both.here.occupied both.here.isIri⟩)

theorem passes_of_outcome (resolved : g.outcome one.uri = .ok first) :
    g.Passes (FieldDefinition.cell one.uri 0) first := by
  rcases outcome_eq_ok.mp resolved with ⟨value, paths, -⟩ | ⟨label, paths, passes⟩
  · cases (paths _).mp (both.path_iff.mpr rfl)
  · rwa [(paths _).mp (both.path_iff.mpr rfl)]

/-- Both lists are passed as they were declared just where they have no cell in common or are the
same. -/
theorem outcomes_iff : g.outcome one.uri = .ok first ∧ g.outcome two.uri = .ok second ↔
    stem one.uri ≠ stem two.uri ∨ first = second := by
  constructor
  · rintro ⟨here, there⟩
    by_cases same : stem one.uri = stem two.uri
    · have passes := both.passes_of_outcome here
      have cells : FieldDefinition.cell one.uri 0 = FieldDefinition.cell two.uri 0 := by
        rw [FieldDefinition.cell, same, FieldDefinition.cell]
      rw [cells] at passes
      exact .inr (passes.unique (both.symm.passes_of_outcome there))
    · exact .inl same
  · exact fun apart =>
      ⟨both.outcome_of_apart apart, both.symm.outcome_of_apart (apart.imp Ne.symm Eq.symm)⟩

end
end DeclaresBoth
end Graph

/-! ## Both fields added -/

section
variable {form : Term} {one two : FieldDefinition} {first second : Chain}

/-- What two definitions say. -/
def FieldDefinition.schemaOfBoth (form : Term) (one two : FieldDefinition) : Dataset :=
  .ofGraph (.ofList (one.triples form ++ two.triples form))

theorem FieldDefinition.schemaOfBoth_comm :
    schemaOfBoth form one two = schemaOfBoth form two one :=
  congrArg Dataset.ofGraph (SortedSet.ext_mem fun t => by simp [or_comm])

/-- Both additions succeed and leave what the two definitions say. -/
theorem Dataset.addField_both (here : one.HasList first) (there : two.HasList second) :
    ((∅ : Dataset).addField form one).bind (·.addField form two) =
      .ok (FieldDefinition.schemaOfBoth form one two) := by
  have adds : (∅ : Dataset).addField form one =
      .ok ((∅ : Dataset).insertMany none (one.triples form)) :=
    addField_eq_ok.mpr ⟨here.fault?_eq_none, rfl⟩
  rw [adds]
  refine addField_eq_ok.mpr ⟨there.fault?_eq_none, ext_graph fun name => ?_⟩
  simp only [FieldDefinition.schemaOfBoth, insertMany, graph_setGraph, graph_ofGraph, graph_empty,
    if_pos]
  split
  · exact SortedSet.ext_mem fun t => by simp
  · rfl

theorem Graph.declaresBoth_schemaOfBoth (isIri : form.isIri) (here : one.HasList first)
    (there : two.HasList second) (different : one.uri ≠ two.uri) :
    ((FieldDefinition.schemaOfBoth form one two).graph none).DeclaresBoth form one two first second :=
  ⟨isIri, here, there, different, fun t => by
    simp [FieldDefinition.schemaOfBoth, Dataset.graph_ofGraph]⟩

/-- The two fields have the given chains, and no field is reported. -/
def Resolution.ofBoth (one two : FieldDefinition) (first second : Chain) : Resolution where
  chains := ((∅ : PathMap).insert (.field one.uri) first).insert (.field two.uri) second

theorem Resolution.get?_ofBoth (different : one.uri ≠ two.uri) {key : FieldKey} {chain : Chain} :
    (ofBoth one two first second).chains.get? key = some chain ↔
      key = .field one.uri ∧ chain = first ∨ key = .field two.uri ∧ chain = second := by
  have apart : FieldKey.field two.uri ≠ .field one.uri := fun same =>
    different (FieldKey.field.inj same).symm
  rw [ofBoth, SortedMap.get?_insert, SortedMap.get?_insert, SortedMap.get?_empty]
  by_cases isTwo : key = .field two.uri
  · simp [isTwo, apart, eq_comm]
  · by_cases isOne : key = .field one.uri
    · simp [isOne, apart.symm, eq_comm]
    · simp [isTwo, isOne]

section
variable {schema : Dataset} {r : Resolution}
  (both : (schema.graph none).DeclaresBoth form one two first second)
  (resolves : schema.resolve .field = .ok r)
include both resolves

theorem Graph.DeclaresBoth.get?_iff {chain : Chain} :
    r.chains.get? (.field one.uri) = some chain ↔
      (schema.graph none).outcome one.uri = .ok chain := by
  rw [get?_chains_iff resolves]
  exact and_iff_right ⟨_, both.isRoot_iff.mpr (.inl rfl), both.path_iff.mpr rfl⟩

/-- Where both fields have their own chains, no field is reported and there is no other chain. -/
theorem Graph.DeclaresBoth.eq_ofBoth_iff : r = .ofBoth one two first second ↔
    r.chains.get? (.field one.uri) = some first ∧
      r.chains.get? (.field two.uri) = some second := by
  have own := @Resolution.get?_ofBoth one two first second both.different
  constructor
  · rintro rfl
    exact ⟨own.mpr (.inl ⟨rfl, rfl⟩), own.mpr (.inr ⟨rfl, rfl⟩)⟩
  · rintro ⟨here, there⟩
    have fields : ∀ field outcome, r.Records (.field field) outcome →
        field = one.uri ∧ outcome = .ok first ∨ field = two.uri ∧ outcome = .ok second := by
      intro field outcome recorded
      obtain ⟨_, same, ⟨path, isRoot, -⟩, rfl⟩ := (records_field_iff resolves).mp recorded
      obtain rfl := FieldKey.field.inj same
      rcases both.isRoot_iff.mp isRoot with rfl | rfl
      · exact .inl ⟨rfl, (both.get?_iff resolves).mp here⟩
      · exact .inr ⟨rfl, (both.symm.get?_iff resolves).mp there⟩
    have keys : ∀ key outcome, r.Records key outcome → ∃ field, key = .field field :=
      fun key outcome recorded => by
        obtain ⟨field, rfl, -⟩ := (records_field_iff resolves).mp recorded
        exact ⟨field, rfl⟩
    have chains : r.chains = (Resolution.ofBoth one two first second).chains := by
      refine SortedMap.ext_get? fun key => Option.ext fun chain => ?_
      rw [own]
      constructor
      · intro found
        have recorded : r.Records key (.ok chain) := found
        obtain ⟨field, rfl⟩ := keys _ _ recorded
        simpa using fields field _ recorded
      · rintro (⟨rfl, rfl⟩ | ⟨rfl, rfl⟩)
        · exact here
        · exact there
    have sound : r.malformed = [] := by
      refine List.eq_nil_iff_forall_not_mem.mpr ?_
      rintro ⟨key, defect⟩ member
      have recorded : r.Records key (.error defect) := member
      obtain ⟨field, rfl⟩ := keys _ _ recorded
      simpa using fields field _ recorded
    calc r = ⟨r.chains, r.malformed⟩ := rfl
      _ = .ofBoth one two first second := by rw [chains, sound]; rfl

/-- Both fields have their own chains just where no cell has the same label for both, or the chains
are the same. -/
theorem Graph.DeclaresBoth.chains_iff : r.chains.get? (.field one.uri) = some first ∧
    r.chains.get? (.field two.uri) = some second ↔
      Digest.ofText one.uri.text ≠ Digest.ofText two.uri.text ∨ first = second := by
  rw [both.get?_iff resolves, both.symm.get?_iff resolves, both.outcomes_iff, ne_eq, ne_eq,
    FieldDefinition.stem_eq_iff]

end

/-- Two fields with lists are added to the empty schema in either order, with the same result, and the
result resolves. Both fields have the chains that they were declared with, and nothing is reported,
exactly if the digests of their IRIs differ or the chains are the same. -/
theorem two_fields_resolve_iff (isIri : form.isIri) (here : one.HasList first)
    (there : two.HasList second) (different : one.uri ≠ two.uri) : ∃ both r,
      ((∅ : Dataset).addField form one).bind (·.addField form two) = .ok both ∧
      ((∅ : Dataset).addField form two).bind (·.addField form one) = .ok both ∧
      both.resolve .field = .ok r ∧
      (r = .ofBoth one two first second ↔
        Digest.ofText one.uri.text ≠ Digest.ofText two.uri.text ∨ first = second) := by
  have declares := Graph.declaresBoth_schemaOfBoth isIri here there different
  obtain ⟨r, resolves⟩ : ∃ r, (FieldDefinition.schemaOfBoth form one two).resolve .field = .ok r :=
    exists_resolve (fun _ cell _ => declares.supported cell) fun _ cell _ => declares.supported cell
  refine ⟨_, r, Dataset.addField_both here there, ?_, resolves, ?_⟩
  · rw [FieldDefinition.schemaOfBoth_comm]
    exact Dataset.addField_both there here
  · rw [declares.eq_ofBoth_iff resolves, declares.chains_iff resolves]

/-- A field with a list. -/
def listField (uri : String) (chain : Chain) : FieldDefinition where
  uri := .iri uri
  label := "List"
  displayType := .iri "http://ex.org/text"
  path := .list chain

theorem hasList_listField {uri : String} {chain : Chain} (occupied : chain ≠ [])
    (isIri : ∀ step ∈ chain, step.predicate.isIri) : (listField uri chain).HasList chain :=
  ⟨rfl, rfl, occupied, isIri⟩

/-- A step back and a step forward. -/
def backAndOn : Chain := [.inverse (.iri "http://ex.org/p"), .forward (.iri "http://ex.org/q")]

def stepOn : Chain := [.forward (.iri "http://ex.org/q")]

def oneField : FieldDefinition := listField "http://ex.org/one" backAndOn

def twoField : FieldDefinition := listField "http://ex.org/two" stepOn

/-- One list is the end of the other one. -/
theorem two_fields_resolve_iff_backAndOn :
    (Term.iri "http://ex.org/form").isIri ∧ oneField.HasList backAndOn ∧ twoField.HasList stepOn ∧
    oneField.uri ≠ twoField.uri ∧ ∃ both,
      ((∅ : Dataset).addField (.iri "http://ex.org/form") oneField).bind
        (·.addField (.iri "http://ex.org/form") twoField) = .ok both ∧
      ((∅ : Dataset).addField (.iri "http://ex.org/form") twoField).bind
        (·.addField (.iri "http://ex.org/form") oneField) = .ok both ∧
      both.resolve .field = .ok (.ofBoth oneField twoField backAndOn stepOn) := by
  have here : oneField.HasList backAndOn := hasList_listField (by decide) (by decide)
  have there : twoField.HasList stepOn := hasList_listField (by decide) (by decide)
  have different : oneField.uri ≠ twoField.uri := by decide
  have digests : Digest.ofText oneField.uri.text ≠ Digest.ofText twoField.uri.text := by
    decide +kernel
  obtain ⟨both, r, added, swapped, resolves, resolved⟩ :=
    @two_fields_resolve_iff (.iri "http://ex.org/form") _ _ _ _ rfl here there different
  rw [resolved.mpr (.inl digests)] at resolves
  exact ⟨rfl, here, there, different, both, added, swapped, resolves⟩

/-- Two IRIs have one digest, and fields with these IRIs lose their lists to each other. -/
theorem fields_share_list_nodes : ¬ ∀ (form : Term) (one two : FieldDefinition)
    (first second : Chain), form.isIri → one.HasList first → two.HasList second → one.uri ≠ two.uri →
      ∃ both r, ((∅ : Dataset).addField form one).bind (·.addField form two) = .ok both ∧
        both.resolve .field = .ok r ∧ r.chains.get? (.field one.uri) = some first ∧
        r.chains.get? (.field two.uri) = some second := by
  intro claim
  have here := @hasList_listField "http://ex.org/ninhfxurvnsa" backAndOn (by decide) (by decide)
  have there := @hasList_listField "http://ex.org/miemcvbojcij" stepOn (by decide) (by decide)
  have different : (listField "http://ex.org/ninhfxurvnsa" backAndOn).uri ≠
      (listField "http://ex.org/miemcvbojcij" stepOn).uri := by decide
  have digests : Digest.ofText (listField "http://ex.org/ninhfxurvnsa" backAndOn).uri.text =
      Digest.ofText (listField "http://ex.org/miemcvbojcij" stepOn).uri.text := by decide +kernel
  obtain ⟨both, r, added, resolves, found⟩ :=
    claim (.iri "http://ex.org/form") _ _ _ _ rfl here there different
  rw [Dataset.addField_both here there] at added
  rw [← Except.ok.inj added] at resolves
  have declares := @Graph.declaresBoth_schemaOfBoth (.iri "http://ex.org/form") _ _ _ _ rfl here there
    different
  rcases (declares.chains_iff resolves).mp found with apart | same
  · exact apart digests
  · exact absurd same (by decide)

end

end Formulary
