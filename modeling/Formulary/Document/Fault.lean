/-!
# Faults of documents

Why the text of a document is refused, whatever its format.
-/

namespace Formulary.Document

inductive Fault where
  /-- The text does not follow the grammar of its format. -/
  | malformed
  /-- A triple has a quoted triple for its subject or object. -/
  | quotedTriple
deriving DecidableEq, Repr

end Formulary.Document
