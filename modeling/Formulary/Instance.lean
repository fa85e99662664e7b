import Formulary.Dataset
import Formulary.Path

/-!
# Instances

The values that an instance has for the fields of a form.
-/

namespace Formulary
open Std

/-- The nodes one step away from a node. -/
def Graph.across (g : Graph) (step : Step) (node : Term) : List Term :=
  match step.direction with
  | .forward => (g.toList.filter fun t => t.subject = node ∧ t.predicate = step.predicate).map
      (·.object)
  | .inverse => (g.toList.filter fun t => t.predicate = step.predicate ∧ t.object = node).map
      (·.subject)

/-- The nodes one step away from any of some nodes. -/
def Graph.acrossAll (g : Graph) (step : Step) (nodes : SortedSet Term) : SortedSet Term :=
  .ofList (nodes.toList.flatMap (g.across step))

namespace Dataset

/-- Whether a node has an identifier and a type. -/
def isAddressable (d : Dataset) (node : Term) : Bool :=
  (d.objectOf node (.iri Mu.uuid)).isSome && (d.objectOf node (.iri Rdf.type)).isSome

/-- The nodes that a chain leads to. Between two steps only nodes with an identifier and a type
count. -/
def followFrom (d : Dataset) : SortedSet Term → Chain → SortedSet Term
  | nodes, [] => nodes
  | nodes, [step] => (d.graph none).acrossAll step nodes
  | nodes, step :: rest =>
    d.followFrom (((d.graph none).acrossAll step nodes).filter d.isAddressable) rest

/-- The nodes that a chain leads to from one node. -/
def follow (d : Dataset) (root : Term) (chain : Chain) : SortedSet Term :=
  d.followFrom (.ofList [root]) chain

/-- The values of every field of an instance. A field without steps has none. -/
def fieldValues (d : Dataset) (root : Term) (chains : PathMap) : SortedMap FieldKey (List Term) :=
  chains.mapValues fun chain => if chain.isEmpty then [] else (d.follow root chain).toList

end Dataset
end Formulary
