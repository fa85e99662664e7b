import Formulary.Dataset

/-!
# N-Triples text of a dataset

One line for each triple of the union of all graphs, in triple order.
-/

namespace Formulary

def Graph.nTriples (g : Graph) : String := String.join (g.toList.map fun t => t.text ++ "\n")

def Dataset.nTriples (d : Dataset) : String := Graph.nTriples d.union

end Formulary
