import Formulary.Term
import Formulary.Text.Scan

/-!
# Namespaces

Declared namespaces, and the short names of IRIs under them. The longest namespace that covers an
IRI decides; of several declarations of that namespace the last one does.
-/

namespace Formulary

/-- Declarations of a label for a namespace, in the order in which they are written. -/
structure Namespaces where
  entries : List (String × String) := []
deriving DecidableEq, Repr, Inhabited

namespace Namespaces

/-- What follows a namespace in an IRI. The empty namespace covers nothing. -/
def member? (ns iri : String) : Option (List Char) :=
  if ns = "" then none else after? ns.toList iri.toList

/-- The declaration that covers an IRI best, with the rest of the IRI. -/
def cover? (iri : String) : List (String × String) → Option (String × String × List Char)
  | [] => none
  | (label, ns) :: rest =>
    match member? ns iri, cover? iri rest with
    | some tail, none => some (label, ns, tail)
    | some tail, some later =>
      if later.2.1.length < ns.length then some (label, ns, tail) else some later
    | none, later => later

def isNameStart (c : Char) : Bool := c.isAlpha || c == '_'

def isNameChar (c : Char) : Bool := c.isAlphanum || c == '_' || c == '-'

/-- The empty name, or an ASCII name that starts with a letter or an underscore. -/
def isSafeName : List Char → Bool
  | [] => true
  | c :: rest => isNameStart c && rest.all isNameChar

/-- The short name of an IRI, if what follows its namespace is safe as a name. -/
def compact? (n : Namespaces) (iri : String) : Option String :=
  match cover? iri n.entries with
  | some (label, _, tail) => if isSafeName tail then some (label ++ ":" ++ String.ofList tail) else none
  | none => none

/-- The short name of an IRI, or the IRI in angle brackets. -/
def iriText (n : Namespaces) (iri : String) : String :=
  (n.compact? iri).getD ("<" ++ iri ++ ">")

end Namespaces
end Formulary
