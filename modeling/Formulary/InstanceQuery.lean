import Formulary.Path
import Formulary.Pattern.Evaluation
import Formulary.Pattern.Sparql

/-!
# Queries for instances

The statement that extracts or deletes one instance of a form, or every instance of a type. Its
template is exactly the list of patterns in its body, so that both modes select the same triples.
Every node between two steps of a path must have an identifier and a type.
-/

namespace Formulary
open Std

structure InstanceQuery where
  /-- Whether the selected triples are removed. -/
  deletes : Bool
  template : List TriplePattern
  body : Group
deriving Inhabited

/-- The pattern of a step between two nodes. -/
def Step.pattern (s : Step) (source target : Slot) : TriplePattern :=
  match s.direction with
  | .forward => ⟨source, .term s.predicate, target⟩
  | .inverse => ⟨target, .term s.predicate, source⟩

namespace InstanceQuery

/-! ## Body -/

/-- The variable of the node after a number of steps of a field. -/
def node (index hop : Nat) : Variable :=
  ⟨"field" ++ toString index ++ "_node" ++ toString hop⟩

/-- The identifier and the type that a node between two steps must have. -/
def guards (index hop : Nat) : List TriplePattern :=
  [⟨.var (node index hop), .term (.iri Mu.uuid), .var ⟨(node index hop).name ++ "_uuid"⟩⟩,
    ⟨.var (node index hop), .term (.iri Rdf.type), .var ⟨(node index hop).name ++ "_type"⟩⟩]

/-- The patterns of the steps that follow a node, given the number of steps before it. -/
def patternsFrom (index : Nat) (source : Slot) : Nat → Chain → List TriplePattern
  | _, [] => []
  | hop, [step] => [step.pattern source (.var (node index (hop + 1)))]
  | hop, step :: rest =>
    step.pattern source (.var (node index (hop + 1))) :: guards index (hop + 1) ++
      patternsFrom index (.var (node index (hop + 1))) (hop + 1) rest

/-- The optional group of a field. -/
def fieldGroup (root : Slot) (index : Nat) (chain : Chain) : Group :=
  { patterns := patternsFrom index root 0 chain }

/-- The optional group that asks for the time of the last change. -/
def modifiedGroup (root : Slot) : Group :=
  { patterns := [⟨root, .term (.iri Dct.modified), .var ⟨"modified"⟩⟩] }

/-- The groups of numbered fields; a field without steps has none and takes no number. -/
def fieldGroups (root : Slot) (chains : List Chain) : List Group :=
  (chains.filter (!·.isEmpty)).mapIdx (fieldGroup root)

/-- The root has the type; the fields and the time of the last change are optional, each on its
own. -/
def bodyOf (chains : PathMap) (root : Slot) (type : Term) : Group :=
  { patterns := [⟨root, .term (.iri Rdf.type), .term type⟩]
    optionals := [{ optionals := modifiedGroup root :: fieldGroups root chains.values }] }

/-- The query for one instance, or through a variable for every instance of the type. -/
def build (chains : PathMap) (root : Slot) (type : Term) (deletes : Bool) : InstanceQuery :=
  let body := bodyOf chains root type
  { deletes, template := body.allPatterns, body }

/-! ## Text and evaluation -/

/-- The statement in SPARQL. -/
def text (q : InstanceQuery) : String :=
  (if q.deletes then "DELETE" else "CONSTRUCT") ++ " \x7b\n" ++ templateText q.template 1 ++
    "\x7d\nWHERE " ++ q.body.text ++ "\n"

/-- The triples that the query selects. -/
def matched (q : InstanceQuery) (data : Dataset) : Graph := data.construct q.template q.body

/-- Runs the query: the triples that it selects, and the data after it. -/
def execute (q : InstanceQuery) (data : Dataset) : Graph × Dataset :=
  if q.deletes then data.deleteWhere q.template q.body else (q.matched data, data)

end InstanceQuery
end Formulary
