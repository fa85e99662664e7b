import Formulary.Document.Fault
import Formulary.LanguageTag
import Formulary.Term

/-!
# Nodes of documents

What a document writes in the place of a subject or object, and the literals that it writes.
-/

namespace Formulary.Document

/-- What stands in the place of a subject or object. -/
inductive Node where
  | term (t : Term)
  | quoted
deriving DecidableEq, Repr

/-- How deep the parts of a document may be nested in each other. -/
def depthLimit : Nat := 128

/-- The triple of a subject, predicate and object. A quoted triple can be neither end of it. -/
def Node.triple (subject : Node) (predicate : Term) (object : Node) : Except Fault Triple :=
  match subject, object with
  | .term s, .term o => .ok ⟨s, predicate, o⟩
  | _, _ => .error .quotedTriple

/-- A literal with a language tag, in lower case, if the tag is well-formed. -/
def taggedLiteral? (lexical tag : List Char) : Option Term :=
  let tag := tag.map Char.toLower
  if LanguageTag.isWellFormed tag then
    some (.literal (.lang (String.ofList lexical) (String.ofList tag)))
  else none

/-- A literal with a datatype. -/
def typedLiteral (lexical datatype : List Char) : Term :=
  .literal (.typed (String.ofList lexical) (String.ofList datatype))

end Formulary.Document
