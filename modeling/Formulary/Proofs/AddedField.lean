import Formulary.Proofs.LabelIndependence
import Formulary.Proofs.FieldIndependence
import Formulary.Proofs.WrittenLists

/-!
# Paths beside an added field

A field that is added to a schema gets the chain that it was declared with, and the chains of the
others stay as they are (`Fits.paths_eq`). What is added says nothing of the paths that are there: its
nodes are new, and of the form and of the field only things are said that no path is made of.
-/

namespace Formulary
open Std Relation

namespace Graph

variable {g h : Graph} {root cell modifier : Term}

theorem Supported.not_unsupported (supported : g.Supported cell) : ¬ g.Unsupported cell modifier := by
  rintro ⟨element, alone, blank, other, target, said⟩
  exact other (supported element ((alone element).mpr rfl) blank _ (mem_about.mpr ⟨said, rfl⟩))

namespace SamePath

/-- The cells of a path are the same ones. -/
theorem inPath (same : g.SamePath h root) (inside : h.InPath root cell) : g.InPath root cell := by
  obtain ⟨list, path, way⟩ := inside
  refine ⟨list, (same.paths list).mpr path, ?_⟩
  induction way with
  | refl => exact .refl
  | tail _ rest ih => exact ih.tail ((same.rests _ ⟨list, (same.paths list).mpr path, ih⟩ _).mpr rest)

theorem unsupported (same : g.SamePath h root) (inside : g.InPath root cell)
    (unsupported : h.Unsupported cell modifier) : g.Unsupported cell modifier := by
  obtain ⟨element, alone, blank, other, target, said⟩ := unsupported
  have aloneToo : ∀ b, g.Edge (.iri Rdf.first) cell b ↔ b = element := fun b =>
    (same.firsts cell inside b).trans (alone b)
  exact ⟨element, aloneToo, blank, other, target, (same.elements cell inside _ blank aloneToo).mpr said⟩

end SamePath
end Graph

namespace FieldDefinition

variable {d : FieldDefinition} {form : Term} {t : Triple} {fault : FieldFault}

/-- A definition is valid where its field and all predicates of its path are IRIs and there is one. -/
theorem fault?_eq_none : d.fault? = none ↔
    d.uri.isIri ∧ d.path.chain ≠ [] ∧ ∀ step ∈ d.path.chain, step.predicate.isIri := by
  rw [fault?]
  by_cases named : d.uri.isIri
  · cases path : d.path with
    | simple predicate => simp [named, Path.chain, Step.forward]
    | list steps => cases steps <;> simp [named, Path.chain]
  · simp [named]

/-- The blank nodes that a declaration makes up: the cells of its list and the elements of the steps
back. -/
def nodes (d : FieldDefinition) : List Term := d.pathValue.2.map (·.subject)

/-- What a declaration says of its field. -/
def description (d : FieldDefinition) : List (String × Term) :=
  [(Rdf.type, .iri FormNs.field), (Sh.name, .plain d.label), (FormNs.displayType, d.displayType),
    (Sh.path, d.pathValue.1)] ++
    d.order.toList.map (fun order =>
      (Sh.order, .literal (.typed (toString order.toInt) Xsd.integer))) ++
    d.group.toList.map fun group => (Sh.group, group)

/-- A declaration writes the list of the path, describes the field, and says of the form that it
includes the field. -/
theorem mem_triples : t ∈ d.triples form ↔ t ∈ d.pathValue.2 ∨
    (∃ predicate value, (predicate, value) ∈ d.description ∧ t = ⟨d.uri, .iri predicate, value⟩) ∨
    t = ⟨form, .iri FormNs.includes, d.uri⟩ := by
  have written : d.triples form = d.pathValue.2 ++ (d.description.map fun entry =>
      ⟨d.uri, .iri entry.1, entry.2⟩) ++ [⟨form, .iri FormNs.includes, d.uri⟩] := by
    simp [triples, description, Function.comp_def]
  simp only [written, List.mem_append, List.mem_map, List.mem_singleton, or_assoc, Prod.exists,
    @eq_comm _ t]

/-- All made up labels begin alike. -/
theorem exists_label_of_mem_nodes {node : Term} (made : node ∈ d.nodes) :
    ∃ rest, node = .blank ("path" ++ rest) := by
  obtain ⟨t, written, rfl⟩ := List.mem_map.mp made
  rw [pathValue] at written
  cases path : d.path with
  | simple predicate => simp [path] at written
  | list steps =>
    rw [path] at written
    have labels : ∀ (lead : String) (index : Nat), ∃ rest,
        Term.blank (stem d.uri ++ lead ++ toString index) = .blank ("path" ++ rest) := fun lead index =>
      ⟨Digest.text (Digest.ofText d.uri.text) ++ lead ++ toString index, by
        simp only [stem, String.append_assoc]⟩
    obtain ⟨before, step, later, -, rfl | rfl | ⟨-, rfl⟩⟩ := mem_listTriples.mp written
    · exact labels "c" _
    · exact labels "c" _
    · exact labels "s" _

theorem isBlank_of_mem_nodes {node : Term} (made : node ∈ d.nodes) : node.isBlank := by
  obtain ⟨rest, rfl⟩ := exists_label_of_mem_nodes made
  rfl

/-- The definition fits into a schema: the form is an IRI, nothing is said of the field, its nodes are
new, and neither `rdf:nil` nor the one predicate of its path is a cell of a list. -/
structure Fits (d : FieldDefinition) (form : Term) (schema : Dataset) : Prop where
  isIri : form.isIri
  unnamed : ∀ t ∈ schema.graph none, t.subject ≠ d.uri
  fresh : ∀ node ∈ d.nodes, ∀ t ∈ schema.graph none, t.subject ≠ node ∧ t.object ≠ node
  ended : ∀ a, a = .iri Rdf.nil ∨ d.path = .simple a →
    ∀ b, ¬ (schema.graph none).Edge (.iri Rdf.first) a b ∧ ¬ (schema.graph none).Edge (.iri Rdf.rest) a b

end FieldDefinition

section
variable {schema added : Dataset} {d : FieldDefinition} {form : Term} {t : Triple}
  {fault : FieldFault}

/-! ## Writing -/

/-- Writing triples one after the other does not fail and leaves them all in the schema. -/
theorem run_write {triples : List Triple} :
    ((triples.forM fun t => modify fun schema => (schema.insertIn none t).2 :
      ExceptT FormError (StateM Dataset) Unit).run schema).run =
        (.ok (), schema.insertMany none triples) := by
  induction triples generalizing schema with
  | nil =>
    rw [Dataset.insertMany_nil]
    rfl
  | cons t rest ih =>
    rw [Dataset.insertMany_cons, ← ih]
    rfl

/-- Either nothing is written and the definition is refused, or all of its triples are written. -/
theorem FieldDefinition.run_declare : ((d.declare form).run schema).run =
    match d.fault? with
    | some fault => (.error (.invalidField d.uri fault), schema)
    | none => (.ok (), schema.insertMany none (d.triples form)) := by
  rw [declare]
  cases d.fault? with
  | some fault => rfl
  | none => exact run_write

theorem Dataset.addField_eq_error (faulty : d.fault? = some fault) :
    schema.addField form d = .error (.invalidField d.uri fault) := by
  rw [addField, FieldDefinition.run_declare, faulty]
  rfl

theorem Dataset.addField_eq_ok : schema.addField form d = .ok added ↔
    d.fault? = none ∧ schema.insertMany none (d.triples form) = added := by
  rw [addField, FieldDefinition.run_declare]
  cases d.fault? with
  | some fault => exact iff_of_false nofun nofun
  | none => exact ⟨fun adds => ⟨rfl, Except.ok.inj adds⟩, fun ⟨_, same⟩ => congrArg Except.ok same⟩

theorem Dataset.mem_addField (adds : schema.addField form d = .ok added) :
    t ∈ added.graph none ↔ t ∈ schema.graph none ∨ t ∈ d.triples form := by
  rw [← (addField_eq_ok.mp adds).2, insertMany, graph_setGraph, if_pos rfl, SortedSet.mem_insertMany]

namespace FieldDefinition

theorem valid_of_addField (adds : schema.addField form d = .ok added) :
    d.uri.isIri ∧ d.path.chain ≠ [] ∧ ∀ step ∈ d.path.chain, step.predicate.isIri :=
  fault?_eq_none.mp (Dataset.addField_eq_ok.mp adds).1

/-! ## What is added -/

/-- The predicates that lists are written with. -/
def listing : List String := [Rdf.first, Rdf.rest, Sh.inversePath]

/-- The predicates that a field is described by. -/
def describing : List String :=
  [Rdf.type, Sh.name, FormNs.displayType, Sh.path, Sh.order, Sh.group]

theorem listing_of_mem (written : t ∈ d.pathValue.2) :
    ∃ predicate ∈ listing, t.predicate = .iri predicate := by
  rw [pathValue] at written
  cases path : d.path with
  | simple predicate => simp [path] at written
  | list steps =>
    rw [path] at written
    obtain ⟨before, step, later, -, rfl | rfl | ⟨-, rfl⟩⟩ := mem_listTriples.mp written <;>
      simp [listing]

theorem describing_of_mem {predicate : String} {value : Term}
    (described : (predicate, value) ∈ d.description) : predicate ∈ describing := by
  simp only [description, List.mem_append, List.mem_cons, List.mem_map, Prod.mk.injEq] at described
  simp only [describing, List.mem_cons]
  tauto

section
variable {a b : Term} {predicate : String}

/-- Apart from its form, a declaration says of its field what describes it, and the rest is a list. -/
theorem mem_triples_of_ne (other : predicate ≠ FormNs.includes) :
    ⟨a, .iri predicate, b⟩ ∈ d.triples form ↔
      ⟨a, .iri predicate, b⟩ ∈ d.pathValue.2 ∨ a = d.uri ∧ (predicate, b) ∈ d.description := by
  rw [mem_triples]
  refine or_congr_right ⟨?_, ?_⟩
  · rintro (⟨verb, value, described, same⟩ | same)
    · obtain ⟨rfl, verbs, rfl⟩ := Triple.mk.inj same
      exact ⟨rfl, Term.iri.inj verbs ▸ described⟩
    · exact absurd (Term.iri.inj (congrArg Triple.predicate same)) other
  · rintro ⟨rfl, described⟩
    exact .inl ⟨_, _, described, rfl⟩

theorem isBlank_of_mem_pathValue (written : t ∈ d.pathValue.2) : t.subject.isBlank :=
  isBlank_of_mem_nodes (List.mem_map.mpr ⟨t, written, rfl⟩)

theorem not_mem_pathValue_of_isIri (isIri : t.subject.isIri) : t ∉ d.pathValue.2 := fun written =>
  Term.not_isBlank_of_isIri isIri (isBlank_of_mem_pathValue written)

end

namespace Fits

variable {root cell a b : Term} {predicate : String}

/-- The added edges are those of lists from new nodes, and those that describe the field. -/
theorem edge_iff (adds : schema.addField form d = .ok added)
    (unlisted : a ∈ d.nodes → predicate ∉ listing)
    (undescribed : a = d.uri → predicate ∉ describing) (other : predicate ≠ FormNs.includes) :
    (added.graph none).Edge (.iri predicate) a b ↔ (schema.graph none).Edge (.iri predicate) a b := by
  rw [Graph.Edge, Dataset.mem_addField adds]
  refine or_iff_left fun new => ?_
  rcases (mem_triples_of_ne other).mp new with written | ⟨field, described⟩
  · obtain ⟨verb, listed, same⟩ := listing_of_mem written
    obtain rfl := Term.iri.inj same
    exact unlisted (List.mem_map.mpr ⟨_, written, rfl⟩) listed
  · exact undescribed field (describing_of_mem described)

/-- Added triples about blank nodes are written for the list. -/
theorem mem_pathValue_of_isBlank (isIri : form.isIri) (named : d.uri.isIri) (new : t ∈ d.triples form)
    (blank : t.subject.isBlank) : t ∈ d.pathValue.2 := by
  rcases mem_triples.mp new with written | ⟨verb, value, -, rfl⟩ | rfl
  · exact written
  · exact absurd blank (Term.not_isBlank_of_isIri named)
  · exact absurd blank (Term.not_isBlank_of_isIri isIri)

section
variable (fits : d.Fits form schema) (adds : schema.addField form d = .ok added)
include fits

/-- The cells of the paths that are there are no new nodes. -/
theorem not_mem_nodes_of_inPath (inside : (schema.graph none).InPath root cell) : cell ∉ d.nodes := by
  intro node
  obtain ⟨start, path, way⟩ := inside
  cases way with
  | refl => exact (fits.fresh cell node _ path).2 rfl
  | tail _ rest => exact (fits.fresh cell node _ rest).2 rfl

include adds

/-- The other fields keep what their paths are made of. -/
theorem samePath (other : root ≠ d.uri) : (schema.graph none).SamePath (added.graph none) root where
  paths path := (edge_iff adds (fun _ => by decide) (fun same => absurd same other) (by decide)).symm
  rests cell inside later := (edge_iff adds (absurd · (fits.not_mem_nodes_of_inPath inside))
    (fun _ => by decide) (by decide)).symm
  firsts cell inside element := (edge_iff adds (absurd · (fits.not_mem_nodes_of_inPath inside))
    (fun _ => by decide) (by decide)).symm
  elements cell inside t blank alone := by
    rw [Dataset.mem_addField adds]
    refine (or_iff_left fun new => ?_).symm
    have written := mem_pathValue_of_isBlank fits.isIri (valid_of_addField adds).1 new blank
    exact (fits.fresh _ (List.mem_map.mpr ⟨t, written, rfl⟩) _ ((alone _).mpr rfl)).2 rfl

/-- Nothing becomes a cell of a list that may end one or be the one predicate of the path. -/
theorem ended_added (end_ : a = .iri Rdf.nil ∨ d.path = .simple a) (b : Term) :
    ¬ (added.graph none).Edge (.iri Rdf.first) a b ∧ ¬ (added.graph none).Edge (.iri Rdf.rest) a b := by
  have isIri := (valid_of_addField adds).2.2
  have notNode : a ∉ d.nodes := fun node => by
    refine Term.not_isBlank_of_isIri ?_ (isBlank_of_mem_nodes node)
    rcases end_ with rfl | path
    · rfl
    · exact isIri (.forward a) (by simp [path, Path.chain])
  rw [edge_iff adds (fun node => absurd node notNode) (fun _ => by decide) (by decide),
    edge_iff adds (fun node => absurd node notNode) (fun _ => by decide) (by decide)]
  exact fits.ended a end_ b

/-- Where the path of the field is a list, it is written as it is. -/
theorem spells {steps : Chain} (list : d.path = .list steps) :
    (added.graph none).Spells d.uri steps := by
  have value : d.pathValue.2 = listTriples d.uri 0 steps := by rw [pathValue, list]
  refine ⟨fun t written => ?_, fun t member ⟨s, written, about⟩ => ?_, fun element =>
    (fits.ended_added adds (.inl rfl) element).1⟩
  · exact (Dataset.mem_addField adds).mpr (.inr (mem_triples.mpr (.inl (value ▸ written))))
  · have node : t.subject ∈ d.nodes := List.mem_map.mpr ⟨s, value ▸ written, about⟩
    rcases (Dataset.mem_addField adds).mp member with said | new
    · exact absurd rfl (fits.fresh _ node t said).1
    · exact value ▸ mem_pathValue_of_isBlank fits.isIri (valid_of_addField adds).1 new
        (isBlank_of_mem_nodes node)

/-- Of the field just its description is said. -/
theorem edge_field_iff (other : predicate ≠ FormNs.includes) :
    (added.graph none).Edge (.iri predicate) d.uri b ↔ (predicate, b) ∈ d.description := by
  rw [Graph.Edge, Dataset.mem_addField adds, or_iff_right fun said => fits.unnamed _ said rfl,
    mem_triples_of_ne other, or_iff_right (not_mem_pathValue_of_isIri (valid_of_addField adds).1),
    and_iff_right rfl]

/-! ## The path of the added field -/

theorem isRoot_field : (added.graph none).IsRoot .field d.uri :=
  (fits.edge_field_iff adds (by decide)).mpr (by simp [description])

theorem path_iff : (added.graph none).Edge (.iri Sh.path) d.uri b ↔ b = d.pathValue.1 := by
  rw [fits.edge_field_iff adds (by decide)]
  simp [description, Sh.path, Rdf.type, Sh.name, FormNs.displayType, Sh.order, Sh.group]

/-- The added field has the chain of its path. -/
theorem outcome_field : (added.graph none).outcome d.uri = .ok d.path.chain := by
  obtain ⟨-, occupied, isIri⟩ := valid_of_addField adds
  have paths : ∀ path, (added.graph none).Edge (.iri Sh.path) d.uri path ↔ path = d.pathValue.1 :=
    fun _ => fits.path_iff adds
  cases path : d.path with
  | simple predicate =>
    obtain ⟨value, rfl⟩ : ∃ value, predicate = .iri value :=
      Term.exists_iri_of_isIri (isIri (.forward predicate) (by simp [path, Path.chain]))
    simp only [pathValue, path] at paths
    exact Graph.outcome_eq_ok.mpr (.inl ⟨value, paths, rfl⟩)
  | list steps =>
    simp only [pathValue, path] at paths
    rw [path] at occupied isIri
    exact Graph.outcome_eq_ok.mpr (.inr ⟨_, paths, (fits.spells adds path).passes occupied isIri⟩)

/-- No cell of the path of the added field is unsupported. -/
theorem supported_field (inside : (added.graph none).Contains .field d.uri cell) :
    (added.graph none).Supported cell := by
  obtain ⟨-, occupied, isIri⟩ := valid_of_addField adds
  obtain ⟨list, ⟨-, edge⟩, way⟩ := inside
  obtain rfl := (fits.path_iff adds).mp edge
  have last : ∀ next, ¬ (added.graph none).Edge (.iri Rdf.rest) (.iri Rdf.nil) next := fun next =>
    (fits.ended_added adds (.inl rfl) next).2
  cases path : d.path with
  | simple predicate =>
    simp only [pathValue, path] at way
    have alone := fits.ended_added adds (.inr path)
    rcases way.cases_head with rfl | ⟨next, rest, -⟩
    · exact fun element first => absurd first (alone element).1
    · exact absurd rest (alone next).2
  | list steps =>
    simp only [pathValue, path] at way
    rw [path] at occupied isIri
    exact (fits.spells adds path).supported occupied isIri last way

/-! ## The paths of all fields -/

omit fits in
theorem isRoot_iff (other : root ≠ d.uri) :
    (added.graph none).IsRoot .field root ↔ (schema.graph none).IsRoot .field root :=
  edge_iff adds (fun _ => by decide) (fun same => absurd same other) (by decide)

/-- The schema resolves with the added field if it does without it. -/
theorem exists_resolve {r : Resolution} (resolves : schema.resolve .field = .ok r) :
    ∃ s, added.resolve .field = .ok s := by
  cases outcome : added.resolve .field with
  | ok s => exact ⟨s, rfl⟩
  | error error =>
    obtain ⟨root, cell, modifier, inside, unsupported, -⟩ := exists_unsupported_of_resolve outcome
    by_cases new : root = d.uri
    · exact absurd unsupported (fits.supported_field adds (new ▸ inside)).not_unsupported
    · obtain ⟨list, ⟨isRoot, path⟩, way⟩ := inside
      have same := fits.samePath adds new
      have inPath : (schema.graph none).InPath root cell := same.inPath ⟨list, path, way⟩
      have ⟨start, path, way⟩ := inPath
      have inside : (schema.graph none).Contains .field root cell :=
        ⟨start, ⟨(isRoot_iff adds new).mp isRoot, path⟩, way⟩
      obtain ⟨error, failed⟩ := exists_resolve_eq_error inside (same.unsupported inPath unsupported)
      cases resolves.symm.trans failed

/-- The paths of the schema with the added field are those without it and its own. -/
theorem paths_eq {paths : PathMap} (found : schema.paths .field = .ok paths) :
    added.paths .field = .ok (paths.insert (.field d.uri) d.path.chain) := by
  obtain ⟨r, resolves, rfl⟩ := map_eq_ok.mp found
  obtain ⟨s, resolvesToo⟩ := fits.exists_resolve adds resolves
  refine map_eq_ok.mpr ⟨s, resolvesToo, SortedMap.ext_get? fun key => Option.ext fun chain => ?_⟩
  rw [SortedMap.get?_insert, get?_chains_iff resolvesToo]
  cases key with
  | generated generator predicate =>
    rw [if_neg nofun, get?_chains_iff resolves]
    exact ⟨fun both => both.1.elim, fun both => both.1.elim⟩
  | field root =>
    have result : ∀ g : Graph, g.result (.field root) = g.outcome root := fun _ => rfl
    by_cases new : root = d.uri
    · subst new
      have starts : (added.graph none).Declares .field (.field d.uri) :=
        ⟨d.pathValue.1, fits.isRoot_field adds, (fits.path_iff adds).mpr rfl⟩
      rw [if_pos rfl, result, fits.outcome_field adds, and_iff_right starts, Except.ok.injEq,
        Option.some.injEq]
    · have same := fits.samePath adds new
      have declares : (added.graph none).Declares .field (.field root) ↔
          (schema.graph none).Declares .field (.field root) :=
        exists_congr fun path => and_congr (isRoot_iff adds new) (same.paths path).symm
      have other : FieldKey.field root ≠ .field d.uri := fun keys => new (FieldKey.field.inj keys)
      rw [if_neg other, get?_chains_iff resolves, declares, result, result, same.outcome_eq]

end
end Fits
end FieldDefinition
end
end Formulary
