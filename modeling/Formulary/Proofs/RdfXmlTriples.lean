import Formulary.Proofs.Failure
import Formulary.RdfXml.Reader

/-!
# The triples of RDF/XML documents

An RDF/XML document holds valid triples only (`RdfXml.isValid_of_read`). Each open element knows the
subject or the property that the elements inside it complete; these are made of names, references and
labels, and text becomes an object alone.
-/

namespace Formulary

namespace RdfXml
open Document

theorem Scope.isLiteral_of_iri {s : Scope} {ref : List Char} {t : Term} (made : s.iri? ref = some t) :
    t.isLiteral = false := by
  obtain ⟨value, -, rfl⟩ := Option.map_eq_some_iff.mp made
  rfl

theorem State.isIri_of_predicate {name : List Char} {items next : Nat} {predicate : Term}
    (made : State.predicate? name items = some (predicate, next)) : predicate.isIri := by
  rw [State.predicate?] at made
  split at made
  · cases made
    rfl
  · obtain ⟨-, made⟩ := Option.ite_none_left_eq_some.mp made
    cases made
    rfl

/-! ## What elements know -/

/-- The terms that the attributes give may be subjects, and their properties are IRIs. -/
structure Attributes.Valid (a : Attributes) : Prop where
  id : ∀ t ∈ a.id, t.isLiteral = false
  nodeId : ∀ t ∈ a.nodeId, t.isLiteral = false
  about : ∀ t ∈ a.about, t.isLiteral = false
  resource : ∀ t ∈ a.resource, t.isLiteral = false
  properties : ∀ p ∈ a.properties, p.1.isIri

theorem Attributes.Valid.of_read {s : Scope} {entities : Xml.Entities} {written : Xml.Attributes}
    {a : Attributes} (made : Attributes.read? s entities written = some a) : a.Valid := by
  rw [Attributes.read?] at made
  obtain ⟨named, -, made⟩ := Option.bind_eq_some_iff.mp made
  obtain ⟨labels, -, made⟩ := Option.bind_eq_some_iff.mp made
  dsimp only at made
  split at made
  · cases made
  · split at made
    · cases made
    · obtain ⟨properties, -, made⟩ := Option.bind_eq_some_iff.mp made
      obtain ⟨_, -, made⟩ := Option.bind_eq_some_iff.mp made
      obtain ⟨id, isId, made⟩ := Option.bind_eq_some_iff.mp made
      obtain ⟨nodeId, -, made⟩ := Option.bind_eq_some_iff.mp made
      obtain ⟨_, -, made⟩ := Option.bind_eq_some_iff.mp made
      obtain ⟨about, isAbout, made⟩ := Option.bind_eq_some_iff.mp made
      obtain ⟨_, -, made⟩ := Option.bind_eq_some_iff.mp made
      obtain ⟨resource, isResource, made⟩ := Option.bind_eq_some_iff.mp made
      obtain ⟨_, -, made⟩ := Option.bind_eq_some_iff.mp made
      obtain ⟨datatype, -, made⟩ := Option.bind_eq_some_iff.mp made
      obtain ⟨_, -, made⟩ := Option.bind_eq_some_iff.mp made
      obtain ⟨type, -, made⟩ := Option.bind_eq_some_iff.mp made
      cases made
      exact {
        id := forall_mem_of_mapM_eq_some (fun read => Scope.isLiteral_of_iri read) isId
        nodeId := by
          rintro t written
          obtain ⟨label, -, rfl⟩ := Option.map_eq_some_iff.mp written
          rfl
        about := forall_mem_of_mapM_eq_some (fun read => Scope.isLiteral_of_iri read) isAbout
        resource := forall_mem_of_mapM_eq_some (fun read => Scope.isLiteral_of_iri read) isResource
        properties := by
          intro p property
          obtain ⟨attr, -, rfl⟩ := List.mem_map.mp property
          rfl }

theorem Attributes.Valid.triples {a : Attributes} (valid : a.Valid) {subject : Term}
    (isSubject : subject.isLiteral = false) : ∀ t ∈ a.triples subject, t.isValid := by
  intro t member
  rcases List.mem_append.mp member with property | type
  · obtain ⟨p, there, rfl⟩ := List.mem_map.mp property
    exact Triple.isValid_iff.mpr ⟨valid.properties p there, isSubject⟩
  · obtain ⟨type, -, rfl⟩ := List.mem_map.mp type
    exact Triple.isValid_iff.mpr ⟨rfl, isSubject⟩

structure Property.Valid (p : Property) : Prop where
  subject : p.subject.isLiteral = false
  predicate : p.predicate.isIri
  id : ∀ t ∈ p.id, t.isLiteral = false

theorem Property.Valid.triples {p : Property} (valid : p.Valid) {object : Term} :
    ∀ t ∈ p.triples object, t.isValid := by
  intro t member
  rcases List.mem_cons.mp member with rfl | described
  · exact Triple.isValid_iff.mpr ⟨valid.predicate, valid.subject⟩
  · obtain ⟨id, named, member⟩ := List.mem_flatMap.mp described
    have isSubject := valid.id id (Option.mem_toList.mp named)
    simp only [List.mem_cons, List.not_mem_nil, or_false] at member
    rcases member with rfl | rfl | rfl | rfl <;> exact Triple.isValid_iff.mpr ⟨rfl, isSubject⟩

def Part.Valid : Part → Prop
  | .root => True
  | .node subject _ => subject.isLiteral = false
  | .property p _ => p.Valid
  | .collection p _ => p.Valid
  | .markup p _ => ∀ q ∈ p, q.Valid

/-- What the open elements know fits valid triples, and the triples so far are valid. -/
structure State.Valid (s : State) : Prop where
  elements : ∀ e ∈ s.elements, e.part.Valid
  found : ∀ t ∈ s.found, t.isValid

namespace State.Valid

variable {s next : State} (valid : s.Valid)
include valid

theorem place {part : Part} (there : s.place = some part) : part.Valid := by
  obtain ⟨e, head, rfl⟩ := Option.map_eq_some_iff.mp there
  exact valid.elements e (List.mem_of_mem_head? head)

theorem fresh : s.fresh.2.Valid := ⟨valid.elements, valid.found⟩

theorem emit {triples : List Triple} (more : ∀ t ∈ triples, t.isValid) : (s.emit triples).Valid where
  elements := valid.elements
  found := List.forall_mem_append.mpr ⟨valid.found, more⟩

theorem setPart {part : Part} (isPart : part.Valid) : (s.setPart part).Valid := by
  rw [State.setPart]
  split
  case h_1 element rest opened =>
    have others := valid.elements
    rw [opened] at others
    exact ⟨List.forall_mem_cons.mpr ⟨isPart, (List.forall_mem_cons.mp others).2⟩, valid.found⟩
  case h_2 => exact valid

theorem reserve {id : Option Term} (made : s.reserve? id = some next) : next.Valid := by
  rcases id with _ | id
  · cases made
    exact valid
  · obtain ⟨-, made⟩ := Option.ite_none_left_eq_some.mp made
    cases made
    exact ⟨valid.elements, valid.found⟩

theorem node {name : List Char} {a : Attributes} {part : Part} (attributes : a.Valid)
    (made : s.node? name a = some (part, next)) : part.Valid ∧ next.Valid := by
  have described : ∀ subject, subject.isLiteral = false →
      (Part.node subject 0, s.fresh.2.emit (a.triples subject ++
        if name = rdfName "Description" then []
        else [⟨subject, .iri Rdf.type, .iri (String.ofList name)⟩])) = (part, next) →
      part.Valid ∧ next.Valid := by
    rintro subject isSubject ⟨⟩
    refine ⟨isSubject, valid.fresh.emit ?_⟩
    refine List.forall_mem_append.mpr ⟨attributes.triples isSubject, fun t member => ?_⟩
    split at member
    · cases member
    · rw [List.mem_singleton.mp member]
      exact Triple.isValid_iff.mpr ⟨rfl, isSubject⟩
  rw [State.node?] at made
  dsimp only at made
  split at made
  · exact described _ (attributes.id _ ‹_›) (Option.some.inj made)
  · exact described _ (attributes.nodeId _ ‹_›) (Option.some.inj made)
  · exact described _ (attributes.about _ ‹_›) (Option.some.inj made)
  · exact described _ rfl (Option.some.inj made)
  · cases made

theorem property {inner : Scope} {p : Property} {a : Attributes} {part : Part} (isProperty : p.Valid)
    (attributes : a.Valid) (made : s.property? inner p a = some (part, next)) :
    part.Valid ∧ next.Valid := by
  have withObject : ∀ (s : State) object, s.Valid → object.isLiteral = false →
      (Part.property p object, s.emit (a.triples object)) = (part, next) →
      part.Valid ∧ next.Valid := by
    rintro s object valid isObject ⟨⟩
    exact ⟨isProperty, valid.emit (attributes.triples isObject)⟩
  rw [State.property?] at made
  split at made
  · split at made
    · cases made
      exact ⟨isProperty, valid⟩
    · split at made
      · exact withObject _ _ valid (attributes.resource _ ‹_›) (Option.some.inj made)
      · exact withObject _ _ valid (attributes.nodeId _ ‹_›) (Option.some.inj made)
      · exact withObject _ _ valid.fresh rfl (Option.some.inj made)
      · cases made
  · split at made
    · cases made
      exact ⟨rfl, valid.fresh.emit isProperty.triples⟩
    · split at made
      · cases made
        exact ⟨isProperty, valid⟩
      · split at made
        · cases made
          exact ⟨fun q same => Option.some.inj same ▸ isProperty, valid⟩
        · cases made
          exact ⟨fun q none => (nomatch none), valid⟩

theorem describe {names inner : Scope} {tag : List Char} {written : Xml.Attributes} {part : Part}
    (made : s.describe? names tag written = some (inner, part, next)) : part.Valid ∧ next.Valid := by
  rw [State.describe?] at made
  obtain ⟨scope, -, made⟩ := Option.bind_eq_some_iff.mp made
  obtain ⟨name, -, made⟩ := Option.bind_eq_some_iff.mp made
  obtain ⟨a, read, made⟩ := Option.bind_eq_some_iff.mp made
  obtain ⟨kept, reserved, made⟩ := Option.bind_eq_some_iff.mp made
  have attributes := Attributes.Valid.of_read read
  have valid := valid.reserve reserved
  dsimp only at made
  split at made
  case h_1 subject items place =>
    obtain ⟨⟨predicate, items⟩, named, made⟩ := Option.bind_eq_some_iff.mp made
    obtain ⟨⟨_, _⟩, property, made⟩ := Option.bind_eq_some_iff.mp made
    cases made
    have isSubject : subject.isLiteral = false := valid.place place
    exact (valid.setPart (show (Part.node subject items).Valid from isSubject)).property
      ⟨isSubject, isIri_of_predicate named, attributes.id⟩ attributes property
  case h_2 =>
    split at made
    · cases made
      exact ⟨trivial, valid⟩
    · split at made
      · cases made
      · obtain ⟨⟨_, _⟩, node, made⟩ := Option.bind_eq_some_iff.mp made
        cases made
        exact valid.node attributes node

theorem start {tag : List Char} {written : Xml.Attributes} (made : s.start? tag written = some next) :
    next.Valid := by
  rw [State.start?] at made
  obtain ⟨names, -, made⟩ := Option.bind_eq_some_iff.mp made
  have opened : ∀ {inner : Scope} {part : Part} {s : State}, part.Valid → s.Valid →
      ({ s with elements := ⟨tag, inner, part⟩ :: s.elements } : State).Valid :=
    fun isPart valid => ⟨List.forall_mem_cons.mpr ⟨isPart, valid.elements⟩, valid.found⟩
  dsimp only at made
  split at made
  · cases made
    exact opened (fun q none => nomatch none) valid
  · obtain ⟨⟨inner, part, s⟩, described, made⟩ := Option.bind_eq_some_iff.mp made
    cases made
    obtain ⟨isPart, valid⟩ := valid.describe described
    exact opened isPart valid

theorem accept {subject : Term} : (s.accept subject).Valid := by
  rw [State.accept]
  split
  case h_1 p _ place => exact valid.setPart (valid.place place : p.Valid)
  case h_2 p _ place => exact valid.setPart (valid.place place : p.Valid)
  case h_3 => exact valid

/-- The cells of a list are nodes of their own. -/
theorem addCells {members : List Term} {list : Term} :
    (members.foldl State.addCell (list, s)).2.Valid := by
  induction members generalizing list s with
  | nil => exact valid
  | cons member members ih =>
    refine ih (valid.fresh.emit (List.forall_mem_cons.mpr ⟨?_, List.forall_mem_singleton.mpr ?_⟩))
    · exact Triple.isValid_iff.mpr ⟨rfl, rfl⟩
    · exact Triple.isValid_iff.mpr ⟨rfl, rfl⟩

theorem close {tag content : List Char} {p : Option Property} (properties : ∀ q ∈ p, q.Valid)
    (made : s.close? tag p content = some next) : next.Valid := by
  unfold State.close? at made
  split at made
  case h_1 around before place =>
    cases made
    exact valid.setPart (valid.place place : ∀ q ∈ around, q.Valid)
  case h_2 =>
    cases made
    exact valid
  case h_3 p _ =>
    obtain ⟨-, made⟩ := Option.ite_none_left_eq_some.mp made
    cases made
    exact valid.emit (properties p rfl).triples

theorem finish {tag : List Char} (made : s.finish? tag = some next) : next.Valid := by
  rw [State.finish?] at made
  split at made
  case h_1 element rest opened =>
    obtain ⟨-, made⟩ := Option.ite_none_left_eq_some.mp made
    have elements := valid.elements
    rw [opened] at elements
    obtain ⟨isPart, others⟩ := List.forall_mem_cons.mp elements
    have valid : ({ s with elements := rest } : State).Valid := ⟨others, valid.found⟩
    dsimp only at made
    split at made
    case h_1 =>
      cases made
      exact valid
    case h_2 =>
      cases made
      exact valid.accept
    case h_3 p object part =>
      cases made
      rw [part] at isPart
      exact valid.emit (isPart : p.Valid).triples
    case h_4 p members part =>
      cases made
      rw [part] at isPart
      exact valid.addCells.emit (isPart : p.Valid).triples
    case h_5 p content part =>
      rw [part] at isPart
      exact valid.close isPart made
  case h_2 => cases made

theorem text {raw : List Char} (made : s.text? raw = some next) : next.Valid := by
  rw [State.text?] at made
  obtain ⟨content, -, made⟩ := Option.bind_eq_some_iff.mp made
  have innermost : ∀ {e : Element} {rest : List Element}, s.elements = e :: rest → e.part.Valid := by
    intro e rest opened
    exact valid.elements e (opened ▸ List.mem_cons_self)
  split at made
  case h_1 p before _ opened =>
    cases made
    exact valid.setPart (innermost opened : ∀ q ∈ p, q.Valid)
  case h_2 p object _ opened =>
    split at made <;> cases made
    · exact valid
    · exact valid.setPart (innermost opened : p.Valid)
  case h_3 =>
    split at made <;> cases made
    exact valid

/-- One event of the markup keeps the state valid. -/
theorem step {event : Xml.Event} (made : s.step? event = some next) : next.Valid := by
  cases event with
  | start tag attributes => exact valid.start made
  | finish tag => exact valid.finish made
  | text raw => exact valid.text made
  | declare entities =>
    obtain ⟨declared, -, made⟩ := Option.bind_eq_some_iff.mp made
    cases made
    exact ⟨valid.elements, valid.found⟩

theorem run {events : List Xml.Event} (made : events.foldlM State.step? s = some next) :
    next.Valid := by
  induction events generalizing s with
  | nil =>
    cases made
    exact valid
  | cons event events ih =>
    rw [List.foldlM_cons] at made
    obtain ⟨after, step, made⟩ := Option.bind_eq_some_iff.mp made
    exact ih (valid.step step) made

end State.Valid

/-- All triples of a document are valid. -/
theorem isValid_of_read {text : List Char} {found : Graph} (made : read text = .ok found) :
    ∀ t ∈ found, t.isValid := by
  rw [read] at made
  split at made
  case h_1 s ran =>
    cases made
    obtain ⟨events, -, ran⟩ := Option.bind_eq_some_iff.mp ran
    have start : ({} : State).Valid :=
      ⟨fun e none => absurd none List.not_mem_nil, fun t none => absurd none List.not_mem_nil⟩
    intro t member
    exact (start.run ran).found t (SortedSet.mem_ofList.mp member)
  case h_2 => cases made

end RdfXml
end Formulary
