import Formulary.Dataset
import Formulary.Namespaces

/-!
# Turtle text of a dataset

The namespace declarations, then the union of all graphs in triple order: triples of one subject are
one statement, its predicates and objects one a line.
-/

namespace Formulary

namespace Namespaces

/-- A term with its IRIs shortened. -/
def termText (n : Namespaces) : Term → String
  | .iri value => n.iriText value
  | .blank label => (Term.blank label).text
  | .literal value =>
    match value.language, value.datatype with
    | none, some datatype => Term.quoted value.lexical ++ "^^" ++ n.iriText datatype
    | _, _ => (Term.literal value).text

/-- A predicate, `rdf:type` in its short form. -/
def verbText (n : Namespaces) (predicate : Term) : String :=
  if predicate = .iri Rdf.type then "a" else n.termText predicate

/-- One line for each declaration, and an empty line if there is any. -/
def header (n : Namespaces) : String :=
  String.join (n.entries.map fun entry => "@prefix " ++ entry.1 ++ ": <" ++ entry.2 ++ "> .\n") ++
    if n.entries.isEmpty then "" else "\n"

/-- What stands before the predicate of a triple, where the open statement has the given subject:
the triple goes on with that statement, or ends it and starts its own. -/
def lead (n : Namespaces) (current : Option Term) (subject : Term) : String :=
  if current = some subject then " ;\n    "
  else (if current.isSome then " .\n\n" else "") ++ n.termText subject ++ " "

/-- Triples as statements, the first one continuing the open statement if it can. -/
def statements (n : Namespaces) (current : Option Term) : List Triple → String
  | [] => if current.isSome then " .\n" else ""
  | t :: rest => n.lead current t.subject ++ n.verbText t.predicate ++ " " ++ n.termText t.object ++
      statements n (some t.subject) rest

end Namespaces

def Dataset.turtle (d : Dataset) (n : Namespaces) : String :=
  n.header ++ n.statements none d.union.toList

end Formulary
