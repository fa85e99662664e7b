import Formulary.Document.Label
import Formulary.Document.Node
import Formulary.Iri
import Formulary.Turtle.Terminal

/-!
# Reading Turtle

The statements of a Turtle document, read from left to right. Quoted triples and remarks on triples
belong to the grammar, but no triple of a document may be made with them.
-/

namespace Formulary.Turtle
open Document

/-- What is left to read, and what the text before it has set up. -/
structure Cursor where
  /-- No white space or comment is in front. -/
  text : List Char
  /-- What the written label of a blank node is read as. -/
  relabel : List Char → List Char
  base : Option Iri := none
  /-- Declared labels and their namespaces, the latest first. -/
  names : List (List Char × List Char) := []
  /-- The number of unnamed nodes so far. -/
  unnamed : Nat := 0
  /-- The triples so far, the latest first. -/
  found : List Triple := []

namespace Cursor

/-- The cursor at the first part of a text. -/
def moveTo (c : Cursor) (text : List Char) : Cursor := { c with text := Terminal.skip text }

/-- What a reader of terminals makes of a text, and the cursor after it. -/
def take {α : Type} (c : Cursor) (read : Option (α × List Char)) : Except Fault (α × Cursor) :=
  match read with
  | some (value, rest) => .ok (value, c.moveTo rest)
  | none => .error .malformed

/-- Reads a fixed mark. -/
def expect (c : Cursor) (mark : List Char) : Except Fault Cursor :=
  match after? mark c.text with
  | some rest => .ok (c.moveTo rest)
  | none => .error .malformed

/-- A node of its own, and the cursor after numbering it. -/
def fresh (c : Cursor) : Term × Cursor :=
  (.blank (String.ofList (generatedLabel (c.unnamed + 1))), { c with unnamed := c.unnamed + 1 })

/-- Adds a triple. -/
def emit (c : Cursor) (subject : Node) (predicate : Term) (object : Node) : Except Fault Cursor := do
  let t ← Node.triple subject predicate object
  return { c with found := t :: c.found }

/-! ## Terms -/

/-- Reads a reference in angle brackets. -/
def reference (c : Cursor) : Except Fault (List Char × Cursor) :=
  match c.text with
  | '<' :: rest => do
    let (ref, c) ← c.take (Terminal.reference? rest)
    match Iri.read? c.base ref with
    | some value => return (value, c)
    | none => throw .malformed
  | _ => .error .malformed

/-- Reads an IRI in either form. -/
def iri (c : Cursor) : Except Fault (List Char × Cursor) :=
  match c.text with
  | '<' :: _ => c.reference
  | text => do
    let ((label, member), c) ← c.take (Terminal.name? text)
    match c.names.lookup label with
    | some ns => return (ns ++ member, c)
    | none => throw .malformed

/-- Reads a predicate. The word `a` is one where no name goes on with it. -/
def verb (c : Cursor) : Except Fault (Term × Cursor) :=
  match Terminal.word? ['a'] c.text fun c => Terminal.continuesName c || c == '.' || c == ':' with
  | some rest => .ok (.iri Rdf.type, c.moveTo rest)
  | none => do
    let (value, c) ← c.iri
    return (.iri (String.ofList value), c)

/-- Reads what may follow a string: a language tag or a datatype. -/
def annotated (c : Cursor) (lexical : List Char) : Except Fault (Term × Cursor) :=
  match c.text with
  | '@' :: rest =>
    let (tag, rest) := Terminal.tag rest
    match taggedLiteral? lexical tag with
    | some t => .ok (t, c.moveTo rest)
    | none => .error .malformed
  | '^' :: rest => do
    let c ← { c with text := rest }.expect ['^']
    let (datatype, c) ← c.iri
    return (typedLiteral lexical datatype, c)
  | _ => .ok (.plain (String.ofList lexical), c)

/-- The words that are literals, where no name goes on with them. A full stop ends them. -/
def boolean? (text : List Char) : Option (Term × List Char) :=
  ["true", "false"].findSome? fun word =>
    (Terminal.word? word.toList text fun c => Terminal.continuesName c || c == ':').map
      (typedLiteral word.toList Xsd.boolean.toList, ·)

/-- Reads an IRI or a blank node without triples of its own. -/
def resource (c : Cursor) : Except Fault (Term × Cursor) :=
  match c.text with
  | '_' :: ':' :: rest => do
    let (label, c) ← c.take (Terminal.blankLabel? rest)
    return (.blank (String.ofList (c.relabel label)), c)
  | text =>
    match Terminal.anon? text with
    | some rest => .ok (c.moveTo rest).fresh
    | none => do
      let (value, c) ← c.iri
      return (.iri (String.ofList value), c)

/-- Reads a literal, an IRI or a blank node without triples of its own. -/
def atom (c : Cursor) : Except Fault (Term × Cursor) :=
  match c.text with
  | [] => .error .malformed
  | mark :: rest =>
    if mark = '"' ∨ mark = '\'' then do
      let (lexical, c) ← c.take (Terminal.string? mark rest)
      c.annotated lexical
    else if mark.isDigit || mark == '+' || mark == '-' || mark == '.' then do
      let ((lexical, datatype), c) ← c.take (Terminal.number? c.text)
      return (typedLiteral lexical datatype.toList, c)
    else match boolean? c.text with
      | some (value, rest) => .ok (value, c.moveTo rest)
      | none => c.resource

/-- Reads an end of a quoted triple: one more quoted triple, or else a term. -/
def quotedEnd (more : Cursor → Except Fault Cursor) (term : Cursor → Except Fault (Term × Cursor))
    (c : Cursor) : Except Fault Cursor :=
  match after? ['<', '<'] c.text with
  | some rest => more (c.moveTo rest)
  | none => Prod.snd <$> term c

/-- Reads a quoted triple after its opening mark, given a reader of those inside it. -/
def quotedTriple (more : Cursor → Except Fault Cursor) (c : Cursor) : Except Fault Cursor := do
  let c ← c.quotedEnd more resource
  let (_, c) ← c.verb
  let c ← c.quotedEnd more atom
  c.expect ['>', '>']

/-- Reads a quoted triple after its opening mark, with room for so many more inside it. -/
def quoted : Nat → Cursor → Except Fault Cursor
  | 0 => quotedTriple fun _ => .error .malformed
  | room + 1 => quotedTriple (quoted room)

/-! ## Triples -/

mutual

/-- Reads an object, an element of a collection, or a subject that brackets or parentheses open. The
room counts how many more parts may be nested in it. -/
def node : Nat → Nat → Cursor → Except Fault (Node × Cursor)
  | 0, _, _ => .error .malformed
  | fuel + 1, room, c =>
    match c.text, room with
    | '<' :: '<' :: rest, room + 1 => do
      let c ← quoted room (c.moveTo rest)
      return (.quoted, c)
    | '<' :: '<' :: _, 0 => .error .malformed
    | '[' :: rest, room =>
      match Terminal.anon? c.text with
      | some rest =>
        let (self, c) := (c.moveTo rest).fresh
        .ok (.term self, c)
      | none =>
        match room with
        | room + 1 => do
          let (self, c) := (c.moveTo rest).fresh
          let c ← properties fuel room (.term self) c
          return (.term self, c)
        | 0 => .error .malformed
    | '(' :: rest, room + 1 => do
      let (head, c) ← elements fuel room (c.moveTo rest)
      return (.term head, c)
    | '(' :: _, 0 => .error .malformed
    | _, _ => do
      let (t, c) ← c.atom
      return (.term t, c)

/-- Reads the elements of a collection up to its closing parenthesis. Gives its first cell, or
`rdf:nil`. -/
def elements : Nat → Nat → Cursor → Except Fault (Term × Cursor)
  | 0, _, _ => .error .malformed
  | fuel + 1, room, c =>
    match c.text with
    | ')' :: rest => .ok (.iri Rdf.nil, c.moveTo rest)
    | _ => do
      let (cell, c) := c.fresh
      let (element, c) ← node fuel room c
      let c ← c.emit (.term cell) (.iri Rdf.first) element
      let (next, c) ← elements fuel room c
      let c ← c.emit (.term cell) (.iri Rdf.rest) (.term next)
      return (cell, c)

/-- Reads the properties of an unnamed node up to its closing bracket. No mark need stand between
two lists of predicates. -/
def properties : Nat → Nat → Node → Cursor → Except Fault Cursor
  | 0, _, _, _ => .error .malformed
  | fuel + 1, room, subject, c => do
    let c ← predicates fuel room subject c
    match c.text with
    | ']' :: rest => return c.moveTo rest
    | _ => properties fuel room subject c

/-- Reads objects with commas between them, each with its remarks. -/
def objects : Nat → Nat → Node → Term → Cursor → Except Fault Cursor
  | 0, _, _, _, _ => .error .malformed
  | fuel + 1, room, subject, predicate, c => do
    let (object, c) ← node fuel room c
    let c ← c.emit subject predicate object
    let c ←
      match after? ['\x7b', '|'] c.text, room with
      | some rest, room + 1 => do
        let c ← predicates fuel room .quoted (c.moveTo rest)
        c.expect ['|', '\x7d']
      | some _, 0 => .error .malformed
      | none, _ => .ok c
    match c.text with
    | ',' :: rest => objects fuel room subject predicate (c.moveTo rest)
    | _ => return c

/-- Reads predicates with their objects, semicolons between them and perhaps after them. -/
def predicates : Nat → Nat → Node → Cursor → Except Fault Cursor
  | 0, _, _, _ => .error .malformed
  | fuel + 1, room, subject, c => do
    let (predicate, c) ← c.verb
    let c ← objects fuel room subject predicate c
    match c.text with
    | ';' :: rest => further fuel room subject (c.moveTo rest)
    | _ => return c

/-- Reads what follows a semicolon: more of them, more predicates, or nothing where the list may
end. -/
def further : Nat → Nat → Node → Cursor → Except Fault Cursor
  | 0, _, _, _ => .error .malformed
  | fuel + 1, room, subject, c =>
    match c.text with
    | ';' :: rest => further fuel room subject (c.moveTo rest)
    | [] | '.' :: _ | ']' :: _ | '|' :: _ | '\x7d' :: _ => .ok c
    | _ => predicates fuel room subject c

end

/-- Reads a subject and its predicates. A subject with properties in brackets needs none outside of
them. -/
def triples (fuel : Nat) (c : Cursor) : Except Fault Cursor :=
  match c.text with
  | '[' :: _ => do
    let (subject, next) ← node fuel depthLimit c
    if (Terminal.anon? c.text).isNone && next.text.head? == some '.' then return next
    else predicates fuel depthLimit subject next
  | '<' :: '<' :: _ | '(' :: _ => do
    let (subject, c) ← node fuel depthLimit c
    predicates fuel depthLimit subject c
  | _ => do
    let (subject, c) ← c.resource
    predicates fuel depthLimit (.term subject) c

/-! ## Statements -/

/-- Reads a label and the namespace that it is declared for. -/
def declareName (c : Cursor) : Except Fault Cursor := do
  let (label, c) ← c.take (Terminal.namespaceLabel? c.text)
  let (ns, c) ← c.reference
  return { c with names := (label, ns) :: c.names }

/-- Reads the base of the references that follow. -/
def declareBase (c : Cursor) : Except Fault Cursor := do
  let (base, c) ← c.reference
  return { c with base := some (Iri.split base) }

/-- The text after a word in capital or small letters, if white space or the end of the text follows
it. -/
def afterKeyword? (word : String) (text : List Char) : Option (List Char) :=
  let size := word.length
  let rest := text.drop size
  if (text.take size).map Char.toLower = word.toList && rest.head?.all isSpace then some rest else none

/-- Reads a declaration or a statement, with its full stop where it has one. -/
def statement (fuel : Nat) (c : Cursor) : Except Fault Cursor :=
  match after? "@prefix".toList c.text, after? "@base".toList c.text with
  | some rest, _ => do (← (c.moveTo rest).declareName).expect ['.']
  | none, some rest => do (← (c.moveTo rest).declareBase).expect ['.']
  | none, none =>
    match afterKeyword? "base" c.text, afterKeyword? "prefix" c.text with
    | some rest, _ => (c.moveTo rest).declareBase
    | none, some rest => (c.moveTo rest).declareName
    | none, none => do (← c.triples fuel).expect ['.']

/-- Reads statements up to the end of the text. -/
def statements : Nat → Cursor → Except Fault Cursor
  | 0, c => if c.text.isEmpty then .ok c else .error .malformed
  | fuel + 1, c =>
    if c.text.isEmpty then .ok c
    else do
      let c ← statement fuel c
      statements fuel c

end Cursor

/-- The triples of a document whose labels are read in the given way. Every step of the grammar that
takes no character leads at once to one that does, which bounds the depth of the reading by a
multiple of the length of the text. -/
def readWith (relabel : List Char → List Char) (text : List Char) : Except Fault Graph := do
  let c ← Cursor.statements (4 * text.length + 4) { text := Terminal.skip text, relabel }
  return .ofList c.found.reverse

/-- The triples of a document. Written labels are kept apart from generated ones. -/
def read (text : List Char) : Except Fault Graph := readWith apartLabel text

end Formulary.Turtle
