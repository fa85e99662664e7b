import Formulary.Document.Label
import Formulary.RdfXml.Scope
import Formulary.Text.Name

/-!
# Reading RDF/XML

Elements alternate between nodes and properties: a node element describes a subject, a property
element inside it makes one triple, and node elements inside that are its objects. The reader keeps
the elements that are open and lets each event of the markup change them.
-/

namespace Formulary.RdfXml
open Document

/-! ## Names with a meaning of their own -/

/-- An IRI of the RDF namespace. -/
def rdfName (member : String) : List Char := Rdf.ns.toList ++ member.toList

/-- Names that no node element may have. -/
def reservedElements : List (List Char) := ["about", "aboutEach", "aboutEachPrefix", "bagID",
  "datatype", "ID", "li", "nodeID", "parseType", "RDF", "resource"].map rdfName

/-- Names that no attribute may have. -/
def reservedAttributes : List (List Char) :=
  ["aboutEach", "aboutEachPrefix", "li", "RDF"].map rdfName

/-- Attributes that say something about an element instead of giving a property. -/
def syntacticAttributes : List (List Char) :=
  ["ID", "nodeID", "about", "resource", "datatype", "parseType", "type", "bagID"].map rdfName

/-! ## Attributes -/

/-- What the attributes of an element say. -/
structure Attributes where
  id : Option Term
  nodeId : Option Term
  about : Option Term
  resource : Option Term
  datatype : Option (List Char)
  type : Option Term
  /-- How the content of a property is to be read, if not as usual; as written. -/
  manner : Option (List Char)
  /-- Properties written as attributes. -/
  properties : List (Term × Term)

namespace Attributes

/-- Reads the attributes that do not belong to XML itself. The last one of a name counts. -/
def read? (s : Scope) (entities : Xml.Entities) (written : Xml.Attributes) :
    Option Attributes := do
  let own := written.filter fun attr => (after? "xml".toList attr.1).isNone
  let named ← own.mapM fun attr => do return (← s.qualified? entities attr.1, attr.2)
  let raw? := fun name : String => named.reverse.lookup (rdfName name)
  let value? := fun name : String => (raw? name).mapM (Xml.decode? entities)
  let labels ← (named.filter fun attr =>
    (["ID", "nodeID", "bagID"].map rdfName).contains attr.1).mapM (Xml.decode? entities ·.2)
  if !labels.all isUncolonedName then none
  if named.any fun attr => reservedAttributes.contains attr.1 then none
  let properties ← (named.filter fun attr => !syntacticAttributes.contains attr.1).mapM
    fun attr => do return (attr.1, ← Xml.decode? entities attr.2)
  return {
    id := ← (← value? "ID").mapM fun label => s.iri? ('#' :: label)
    nodeId := (← value? "nodeID").map fun label => .blank (String.ofList label)
    about := ← (← value? "about").mapM s.iri?
    resource := ← (← value? "resource").mapM s.iri?
    datatype := ← (← value? "datatype").mapM (Iri.read? s.base)
    type := ← (← value? "type").mapM s.iri?
    manner := raw? "parseType"
    properties := properties.map fun attr =>
      (.iri (String.ofList attr.1), s.literal none attr.2) }

/-- The triples that the attributes make of a subject. -/
def triples (a : Attributes) (subject : Term) : List Triple :=
  a.properties.map (fun property => ⟨subject, property.1, property.2⟩) ++
    a.type.toList.map (⟨subject, .iri Rdf.type, ·⟩)

end Attributes

/-! ## Elements -/

/-- The triple that a property element is about to make. -/
structure Property where
  subject : Term
  predicate : Term
  /-- The name of the triple itself, if it is described too. -/
  id : Option Term
  datatype : Option (List Char)

/-- The triple of a property, and the description of that triple if it has a name. -/
def Property.triples (p : Property) (object : Term) : List Triple :=
  ⟨p.subject, p.predicate, object⟩ :: p.id.toList.flatMap fun id =>
    [⟨id, .iri Rdf.type, .iri (Rdf.ns ++ "Statement")⟩,
      ⟨id, .iri (Rdf.ns ++ "subject"), p.subject⟩,
      ⟨id, .iri (Rdf.ns ++ "predicate"), p.predicate⟩,
      ⟨id, .iri (Rdf.ns ++ "object"), object⟩]

/-- The part that an open element plays. -/
inductive Part where
  /-- It holds descriptions of nodes. -/
  | root
  /-- It describes a node; the number counts its list items. -/
  | node (subject : Term) (items : Nat)
  /-- It makes a triple with the object that it has so far. -/
  | property (p : Property) (object : Term)
  /-- It makes a triple whose object is a list; the latest member comes first. -/
  | collection (p : Property) (members : List Term)
  /-- Its content is kept as markup. It may make a triple with that. -/
  | markup (p : Option Property) (content : List Char)

structure Element where
  tag : List Char
  scope : Scope
  part : Part

/-- The elements that are open, the innermost first, and what the text before has brought. -/
structure State where
  elements : List Element := []
  /-- The entities that the document declares. -/
  entities : Xml.Entities := []
  unnamed : Nat := 0
  /-- The names given by `rdf:ID`. -/
  ids : List Term := []
  found : List Triple := []

namespace State

def scope (s : State) : Scope := (s.elements.head?.map Element.scope).getD {}

/-- The part of the innermost element. -/
def place (s : State) : Option Part := s.elements.head?.map Element.part

/-- A node of its own, and the state after numbering it. -/
def fresh (s : State) : Term × State :=
  (.blank (String.ofList (generatedLabel (s.unnamed + 1))), { s with unnamed := s.unnamed + 1 })

def emit (s : State) (triples : List Triple) : State := { s with found := s.found ++ triples }

/-- Keeps a name given by `rdf:ID`, which no other element may have. -/
def reserve? (s : State) (id : Option Term) : Option State :=
  match id with
  | some id => if s.ids.contains id then none else some { s with ids := id :: s.ids }
  | none => some s

/-- Changes the part of the innermost element. -/
def setPart (s : State) (part : Part) : State :=
  match s.elements with
  | element :: rest => { s with elements := { element with part } :: rest }
  | [] => s

/-- The part of a node element. Its number is taken even where it has a name. -/
def node? (s : State) (name : List Char) (a : Attributes) : Option (Part × State) := do
  let (self, s) := s.fresh
  let subject ←
    match a.id, a.nodeId, a.about with
    | some id, none, none => some id
    | none, some id, none => some id
    | none, none, some id => some id
    | none, none, none => some self
    | _, _, _ => none
  let type : Term := .iri (String.ofList name)
  let typed : List Triple :=
    if name = rdfName "Description" then [] else [⟨subject, .iri Rdf.type, type⟩]
  return (.node subject 0, s.emit (a.triples subject ++ typed))

/-- The part of a property element. Its attributes describe its object; a type alone does not make
one. -/
def property? (s : State) (inner : Scope) (p : Property) (a : Attributes) : Option (Part × State) :=
  match a.manner with
  | none =>
    if a.resource.isNone && a.nodeId.isNone && a.properties.isEmpty then
      some (.property p (inner.literal p.datatype []), s)
    else do
      let (object, s) ←
        match a.resource, a.nodeId with
        | some object, none => some (object, s)
        | none, some object => some (object, s)
        | none, none => some s.fresh
        | some _, some _ => none
      return (.property p object, s.emit (a.triples object))
  | some manner =>
    if manner = "Resource".toList then
      let (object, s) := s.fresh
      some (.node object 0, s.emit (p.triples object))
    else if manner = "Collection".toList then some (.collection p [], s)
    else if manner = "Literal".toList then some (.markup (some p) [], s)
    else some (.markup none [], s)

/-- The predicate of a property element: the next member of a container, or the name itself. -/
def predicate? (name : List Char) (items : Nat) : Option (Term × Nat) :=
  if name = rdfName "li" then
    some (.iri (Rdf.ns ++ "_" ++ toString (items + 1)), items + 1)
  else if reservedElements.contains name || name = rdfName "Description" then none
  else some (.iri (String.ofList name), items)

/-- The scope, part and state of an element that starts. -/
def describe? (s : State) (names : Scope) (tag : List Char) (written : Xml.Attributes) :
    Option (Scope × Part × State) := do
  let inner ← written.foldlM (·.refine? s.entities) names
  let name ← inner.elementName? s.entities tag
  let a ← Attributes.read? inner s.entities written
  let s ← s.reserve? a.id
  match s.place with
  | some (.node subject items) => do
    let (predicate, items) ← predicate? name items
    let s := s.setPart (.node subject items)
    return (inner, ← s.property? inner ⟨subject, predicate, a.id, a.datatype⟩ a)
  | place =>
    if place.isNone && name = rdfName "RDF" then return (inner, .root, s)
    else if reservedElements.contains name then none
    else return (inner, ← s.node? name a)

/-- The start of an element as markup, its attributes in double quotes. -/
def startMarkup (tag : List Char) (written : Xml.Attributes) : List Char :=
  ['<'] ++ tag ++ written.flatMap (fun attr => [' '] ++ attr.1 ++ ['=', '"'] ++ attr.2 ++ ['"']) ++
    ['>']

/-- The end of an element as markup. -/
def endMarkup (tag : List Char) : List Char := ['<', '/'] ++ tag ++ ['>']

/-- An element starts. Inside content that is kept as markup it means nothing. -/
def start? (s : State) (tag : List Char) (written : Xml.Attributes) : Option State := do
  let names ← written.foldlM Scope.bind? s.scope
  let (inner, part, s) ←
    match s.place with
    | some (.markup _ _) => some (names, .markup none (startMarkup tag written), s)
    | _ => s.describe? names tag written
  return { s with elements := ⟨tag, inner, part⟩ :: s.elements }

/-- A node element has been read: it is the object of the property around it. -/
def accept (s : State) (subject : Term) : State :=
  match s.place with
  | some (.property p _) => s.setPart (.property p subject)
  | some (.collection p members) => s.setPart (.collection p (subject :: members))
  | _ => s

/-- Puts a cell with a member before a list. -/
def addCell (list : Term × State) (member : Term) : Term × State :=
  let (cell, s) := list.2.fresh
  (cell, s.emit [⟨cell, .iri Rdf.first, member⟩, ⟨cell, .iri Rdf.rest, list.1⟩])

/-- Markup has been read: it is part of the markup around it, or the object of its property. -/
def close? (s : State) (tag : List Char) (p : Option Property) (content : List Char) :
    Option State :=
  match s.place, p with
  | some (.markup around before), _ =>
    some (s.setPart (.markup around (before ++ content ++ endMarkup tag)))
  | _, none => some s
  | _, some p =>
    if content.isEmpty then none
    else some (s.emit (p.triples (typedLiteral content (rdfName "XMLLiteral"))))

/-- An element ends; its tag must be that of the innermost one. -/
def finish? (s : State) (tag : List Char) : Option State :=
  match s.elements with
  | element :: rest =>
    if element.tag ≠ tag then none
    else
      let s := { s with elements := rest }
      match element.part with
      | .root => some s
      | .node subject _ => some (s.accept subject)
      | .property p object => some (s.emit (p.triples object))
      | .collection p members =>
        let (head, s) := members.foldl addCell (.iri Rdf.nil, s)
        some (s.emit (p.triples head))
      | .markup p content => s.close? tag p content
  | [] => none

/-- Text is the object of the property around it, or part of the markup around it; elsewhere only
white space may stand. -/
def text? (s : State) (raw : List Char) : Option State := do
  let content ← Xml.decode? s.entities raw
  match s.elements with
  | ⟨_, _, .markup p before⟩ :: _ =>
    return s.setPart (.markup p (before ++ content.flatMap Xml.escape))
  | ⟨_, scope, .property p _⟩ :: _ =>
    if raw.all isSpace then return s
    else return s.setPart (.property p (scope.literal p.datatype content))
  | _ => if raw.all isSpace then return s else none

def step? (s : State) : Xml.Event → Option State
  | .start tag attributes => s.start? tag attributes
  | .finish tag => s.finish? tag
  | .text raw => s.text? raw
  | .declare entities => do
    return { s with entities := ← entities.foldlM Xml.declare? s.entities }

end State

/-- The triples of a document. -/
def read (text : List Char) : Except Fault Graph :=
  match (Xml.events? text).bind (·.foldlM State.step? {}) with
  | some s => .ok (.ofList s.found)
  | none => .error .malformed

end Formulary.RdfXml
