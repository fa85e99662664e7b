import Formulary.Term

/-!
# Defects of paths

Why the path of one field has no steps, while those of other fields may.
-/

namespace Formulary

inductive Defect where
  /-- The path is a literal. -/
  | notAPath
  | missingHead
  /-- An element of the list stands for no predicate. -/
  | unresolvable (element : Term)
  /-- There is more than one way to go on. -/
  | ambiguous (node : Term)
  | cycle
  | unterminated
  | missingScopePath
deriving DecidableEq, Repr

def Defect.message : Defect → String
  | .notAPath => "path value is neither an IRI nor a list"
  | .missingHead => "path list has no first element"
  | .unresolvable element => "path step " ++ element.text ++ " resolves to no predicate"
  | .ambiguous node => "path has more than one candidate at " ++ node.text
  | .cycle => "path list is cyclic"
  | .unterminated => "path list does not terminate in rdf:nil"
  | .missingScopePath => "generator scope declares no path"

end Formulary
