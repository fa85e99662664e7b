import Formulary.Resolution
import Formulary.Text.Blank
import Formulary.Text.CodePoint
import Formulary.Text.Digest

/-!
# Fields

Declaring new fields in a schema, and listing the fields that a schema declares.
-/

namespace Formulary
open Std

/-! ## Declaration -/

/-- A field to be added to a form. -/
structure FieldDefinition where
  uri : Term
  label : String
  displayType : Term
  order : Option Int64 := none
  group : Option Term := none
  path : Path

namespace FieldDefinition

/-- What the labels of the list cells of a field have in common. It comes from the field's IRI, so
that a field has the same cells wherever it is declared. -/
def stem (field : Term) : String := "path" ++ Digest.text (Digest.ofText field.text)

def cell (field : Term) (index : Nat) : Term := .blank (stem field ++ "c" ++ toString index)

/-- The blank element that stands for a step back. -/
def stepNode (field : Term) (index : Nat) : Term := .blank (stem field ++ "s" ++ toString index)

/-- The triples of a list from the cell of the given number on. -/
def listTriples (field : Term) : Nat → Chain → List Triple
  | _, [] => []
  | index, step :: rest =>
    let element : Term × List Triple :=
      match step.direction with
      | .forward => (step.predicate, [])
      | .inverse => (stepNode field index,
          [⟨stepNode field index, .iri Sh.inversePath, step.predicate⟩])
    let next := if rest.isEmpty then .iri Rdf.nil else cell field (index + 1)
    element.2 ++ [⟨cell field index, .iri Rdf.first, element.1⟩,
      ⟨cell field index, .iri Rdf.rest, next⟩] ++ listTriples field (index + 1) rest

/-- What is wrong with a definition, if anything is. -/
def fault? (d : FieldDefinition) : Option FieldFault :=
  if !d.uri.isIri then some .unnamed
  else match d.path with
    | .simple predicate => if predicate.isIri then none else some .badPredicate
    | .list [] => some .emptyList
    | .list steps => if steps.all (·.predicate.isIri) then none else some .badPredicate

/-- The value of `sh:path` and the triples that it needs. -/
def pathValue (d : FieldDefinition) : Term × List Triple :=
  match d.path with
  | .simple predicate => (predicate, [])
  | .list steps => (cell d.uri 0, listTriples d.uri 0 steps)

/-- The triples that declare a field and include it in a form. -/
def triples (d : FieldDefinition) (form : Term) : List Triple :=
  d.pathValue.2 ++
    [⟨d.uri, .iri Rdf.type, .iri FormNs.field⟩,
      ⟨d.uri, .iri Sh.name, .plain d.label⟩,
      ⟨d.uri, .iri FormNs.displayType, d.displayType⟩,
      ⟨d.uri, .iri Sh.path, d.pathValue.1⟩] ++
    d.order.toList.map (fun order =>
      ⟨d.uri, .iri Sh.order, .literal (.typed (toString order.toInt) Xsd.integer)⟩) ++
    d.group.toList.map (⟨d.uri, .iri Sh.group, ·⟩) ++
    [⟨form, .iri FormNs.includes, d.uri⟩]

/-- Declares a field in the default graph and includes it in a form. What has been written stays when
a later step fails, so the definition is checked first. -/
def declare (d : FieldDefinition) (form : Term) : ExceptT FormError (StateM Dataset) Unit := do
  if let some fault := d.fault? then throw (.invalidField d.uri fault)
  (d.triples form).forM fun t => modify fun schema => (schema.insertIn none t).2

end FieldDefinition

/-- The schema with the field, if the declaration succeeds. -/
def Dataset.addField (schema : Dataset) (form : Term) (d : FieldDefinition) :
    Except FormError Dataset :=
  let (outcome, after) := ((d.declare form).run schema).run
  outcome.map fun _ => after

/-! ## Description -/

/-- What a schema says of a field. -/
structure FieldInfo where
  uri : Term
  label : Option String
  displayType : Option Term
  order : Option Int64
  group : Option Term
  /-- The resolved path; none where it is malformed. -/
  path : Option Chain

namespace FieldInfo

/-- The number that a text says, if it is a signed 64-bit one. White space around it is ignored. -/
def number? (text : String) : Option Int64 := do
  let text := trimBlank text.toList
  let (negative, digits) :=
    match text with
    | '-' :: digits => (true, digits)
    | '+' :: digits => (false, digits)
    | digits => (false, digits)
  if digits.isEmpty then none
  else
    let size ← decimalNumber? digits
    let value : Int := if negative then -size else size
    if Int64.minValue.toInt ≤ value ∧ value ≤ Int64.maxValue.toInt then some (.ofInt value) else none

/-- Where a field stands in a list: by its order, fields without one last, and then by its IRI. -/
structure Rank where
  order : Option Int64
  uri : Term
deriving DecidableEq

namespace Rank

private def unordered (r : Rank) : Bool := r.order.isNone

instance : Ord Rank := ⟨compareLex (compareOn unordered) <|
  compareLex (compareOn order) (compareOn uri)⟩
instance : TransOrd Rank := inferInstanceAs (TransCmp (compareLex (compareOn unordered) <|
  compareLex (compareOn order) (compareOn uri)))
instance : LawfulEqOrd Rank where
  eq_of_compare {a b} same := by
    obtain ⟨_, rest⟩ := compareLex_eq_eq.mp same
    obtain ⟨orders, uris⟩ := compareLex_eq_eq.mp rest
    have orders : a.order = b.order := eq_of_compareOn orders
    have uris : a.uri = b.uri := eq_of_compareOn uris
    cases a; cases b; simp_all

end Rank

def rank (f : FieldInfo) : Rank := ⟨f.order, f.uri⟩

/-- What a schema says of one field, given the paths that resolve. -/
def ofSchema (schema : Dataset) (paths : PathMap) (uri : Term) : FieldInfo :=
  let value := fun predicate : String => schema.objectOf uri (.iri predicate)
  { uri
    label := (value Sh.name).bind Term.lexical?
    displayType := value FormNs.displayType
    order := ((value Sh.order).bind Term.lexical?).bind number?
    group := value Sh.group
    path := paths.get? (.field uri) }

end FieldInfo

/-- Every field that a schema declares, in order. -/
def Dataset.fields (schema : Dataset) : Except FormError (List FieldInfo) := do
  let paths ← schema.paths .field
  let declared := schema.matchingIn none
    { predicate := some (.iri Rdf.type), object := some (.iri FormNs.field) }
  let found := declared.map fun t => FieldInfo.ofSchema schema paths t.subject
  return (SortedMap.ofList (found.map fun f => (f.rank, f))).values

end Formulary
