import Formulary.Document

/-!
# Errors

Why a whole operation on a schema or on a document has no result.
-/

namespace Formulary

/-- What is wrong with a field that is to be added. -/
inductive FieldFault where
  | unnamed
  | emptyList
  | badPredicate
deriving DecidableEq, Repr

def FieldFault.message : FieldFault → String
  | .unnamed => "field identifier must be an IRI"
  | .emptyList => "path list is empty"
  | .badPredicate => "path predicate must be an IRI"

inductive FormError where
  /-- An element of a path has a property other than `sh:inversePath`; without that step the path
  would lead elsewhere. -/
  | unsupportedModifier (modifier root : Term)
  | missingRelation (schema : Term) (relation : String)
  | invalidField (field : Term) (fault : FieldFault)
  | document (error : DocumentError)
deriving DecidableEq, Repr

def FormError.message : FormError → String
  | .unsupportedModifier modifier root =>
    "unsupported path modifier <" ++ modifier.iri?.getD "" ++ "> in path of " ++ root.text
  | .missingRelation schema relation =>
    "schema " ++ schema.text ++ " is missing required relation <" ++ relation ++ ">"
  | .invalidField field fault => "invalid field " ++ field.text ++ ": " ++ fault.message
  | .document error => error.message

end Formulary
