import Formulary.Document.Node
import Formulary.Iri
import Formulary.Turtle.Terminal

/-!
# Reading N-Triples

One triple a line, its terms written out in full. Quoted triples belong to the grammar, but no triple
of a document may be made with them.
-/

namespace Formulary.NTriples
open Document

/-- The text without blanks and tabs in front. -/
def skip (text : List Char) : List Char := text.dropWhile fun c => c == ' ' || c == '\t'

/-- Reads an IRI. -/
def iri? : List Char → Option (List Char × List Char)
  | '<' :: rest => do
    let (ref, rest) ← Terminal.reference? rest
    return (← Iri.read? none ref, skip rest)
  | _ => none

/-- Reads a literal after its opening quote. -/
def literal? (text : List Char) : Option (Term × List Char) := do
  let (lexical, rest) ← Terminal.shortString? '"' text
  match skip rest with
  | '@' :: rest =>
    let (tag, rest) := Terminal.tag rest
    (taggedLiteral? lexical tag).map (·, skip rest)
  | '^' :: rest => do
    let rest ← after? ['^'] rest
    let (datatype, rest) ← iri? (skip rest)
    return (typedLiteral lexical datatype, rest)
  | rest => some (.plain (String.ofList lexical), rest)

/-- Reads an IRI or a blank node. -/
def resource? : List Char → Option (Term × List Char)
  | '_' :: ':' :: rest => do
    let (label, rest) ← Terminal.blankLabel? rest
    return (.blank (String.ofList label), skip rest)
  | text => do
    let (value, rest) ← iri? text
    return (.iri (String.ofList value), rest)

/-- Reads a subject or object, with room for so many quoted triples inside each other. Only an object
may be a literal. -/
def node? (room : Nat) (isObject : Bool) (text : List Char) : Option (Node × List Char) :=
  match text, room with
  | '<' :: '<' :: rest, room + 1 => do
    let (_, rest) ← node? room false (skip rest)
    let (_, rest) ← iri? rest
    let (_, rest) ← node? room true rest
    let rest ← after? ['>', '>'] rest
    return (.quoted, skip rest)
  | '<' :: '<' :: _, 0 => none
  | '"' :: rest, _ => do
    if !isObject then none
    let (value, rest) ← literal? rest
    return (.term value, rest)
  | text, _ => do
    let (value, rest) ← resource? text
    return (.term value, rest)

/-- Whether nothing of a line is left but a comment. What follows a carriage return counts as one. -/
def isOver : List Char → Bool
  | [] => true
  | c :: _ => c == '#' || c == '\r'

/-- Reads a subject, a predicate, an object and the full stop after them. -/
def parts? (text : List Char) : Option (Node × Term × Node) := do
  let (subject, rest) ← node? depthLimit false text
  let (predicate, rest) ← iri? rest
  let (object, rest) ← node? depthLimit true rest
  let rest ← after? ['.'] rest
  if isOver (skip rest) then some (subject, .iri (String.ofList predicate), object) else none

/-- The triple of a line; an empty line has none. -/
def lineTriple (line : List Char) : Except Fault (Option Triple) :=
  let line := skip line
  if isOver line then .ok none
  else match parts? line with
    | some (subject, predicate, object) => some <$> Node.triple subject predicate object
    | none => .error .malformed

/-- The triples of a document. -/
def read (text : List Char) : Except Fault Graph := do
  let found ← (pieces (· == '\n') text).mapM lineTriple
  return .ofList (found.filterMap id)

end Formulary.NTriples
