import Formulary.Document.Node
import Formulary.Dataset
import Formulary.Proofs.GrammarTokens

/-!
# The grammar of Turtle

The tokens and productions of Turtle. Labels of blank nodes and the text of literals are kept as
they are written. What the grammar leaves open is a parameter (`Reading`): the meaning of a relative
reference, and the labels of nodes that have none.
-/

namespace Formulary.Grammar
open Document

/-! ## Tokens -/

/-- Whether a text is the label of a namespace, which may be empty. -/
def isNameLabel : List Char → Bool
  | [] => true
  | c :: rest => isNameLetter c && isStopped isNameRest rest

/-- The label of a namespace, up to its colon. -/
def nameLabel? : List Char → Option (List Char × List Char)
  | [] => none
  | c :: rest =>
    if c = ':' then some ([], rest)
    else if isNameLetter c then
      match stopped isNameRest rest with
      | (label, ':' :: after) => some (c :: label, after)
      | _ => none
    else none

/-- An exponent: its mark, an optional sign, and digits. -/
def exponent? : List Char → Option (List Char × List Char)
  | [] => none
  | c :: rest =>
    let (sign, rest) := Terminal.sign rest
    let digits := rest.takeWhile Char.isDigit
    if Terminal.isExponentMark c && !digits.isEmpty then
      some (c :: sign ++ digits, rest.dropWhile Char.isDigit)
    else none

/-- A number, its full stop only where digits or an exponent follow. -/
def number? (text : List Char) : Option (Token × List Char) :=
  let (sign, text) := Terminal.sign text
  let whole := text.takeWhile Char.isDigit
  let rest := text.dropWhile Char.isDigit
  let integer := if whole.isEmpty then none else some (.number (sign ++ whole) Xsd.integer, rest)
  match rest with
  | '.' :: fraction =>
    let part := fraction.takeWhile Char.isDigit
    let after := fraction.dropWhile Char.isDigit
    match exponent? after with
    | some (exponent, after) =>
      if whole.isEmpty && part.isEmpty then none
      else some (.number (sign ++ whole ++ '.' :: part ++ exponent) Xsd.double, after)
    | none =>
      if part.isEmpty then integer
      else some (.number (sign ++ whole ++ '.' :: part) Xsd.decimal, after)
  | _ =>
    match exponent? rest with
    | some (exponent, after) =>
      if whole.isEmpty then none else some (.number (sign ++ whole ++ exponent) Xsd.double, after)
    | none => integer

/-- A word of the grammar. Those that declare something may be in capital letters. -/
def word? (text : List Char) : Option (Token × List Char) :=
  (["a", "true", "false"].findSome? fun word => (after? word.toList text).map (.word word, ·)).or
    (["prefix", "base"].findSome? fun word =>
      if (text.take word.length).map Char.toLower = word.toList then
        some (.word word, text.drop word.length)
      else none)

/-- A name, which may be longer than a word that it starts with, or else a word. -/
def nameOrWord? (text : List Char) : Option (Token × List Char) :=
  match nameLabel? text with
  | some (label, after) => (Terminal.localPart? after).map (Prod.map (.name label) id)
  | none => word? text

def turtle : Lexicon where
  isLetter c := isNameLetter c || c == '_'
  visible c space := by rcases eq_of_isSpace space with rfl | rfl | rfl | rfl <;> decide
  other?
    | [] => none
    | c :: rest =>
      if c == '"' || c == '\'' then (Terminal.string? c rest).map (Prod.map .string id)
      else if "],;()".toList.contains c then some (.mark c, rest)
      else if c == '[' then
        some (((Terminal.anon? (c :: rest)).map (Token.anon, ·)).getD (.mark '[', rest))
      else if c.isDigit || "+-.".toList.contains c then
        (number? (c :: rest)).or (if c == '.' then some (.mark '.', rest) else none)
      else nameOrWord? (c :: rest)

/-! ## Productions -/

/-- What the grammar leaves to whoever reads it. -/
structure Reading where
  /-- What a relative reference means under a base. -/
  resolve (base reference : List Char) : List Char
  /-- The labels of nodes without one, in their order. -/
  unnamed (number : Nat) : String

/-- What is left to read, and what the tokens before it have set up. -/
structure Cursor where
  tokens : List Token
  base : Option (List Char) := none
  /-- Declared labels and their namespaces, the latest first. -/
  names : List (List Char × List Char) := []
  /-- The number of unnamed nodes so far. -/
  unnamed : Nat := 0
  /-- The triples so far, the latest first. -/
  found : List Triple := []

namespace Cursor

def moveTo (c : Cursor) (tokens : List Token) : Cursor := { c with tokens }

@[simp] theorem moveTo_tokens (c : Cursor) (tokens : List Token) :
    (c.moveTo tokens).tokens = tokens := rfl

@[simp] theorem moveTo_names (c : Cursor) (tokens : List Token) :
    (c.moveTo tokens).names = c.names := rfl

@[simp] theorem moveTo_moveTo (c : Cursor) (tokens others : List Token) :
    (c.moveTo tokens).moveTo others = c.moveTo others := rfl

def expect? (c : Cursor) (mark : Char) : Option Cursor :=
  match c.tokens with
  | .mark d :: rest => if d = mark then some (c.moveTo rest) else none
  | _ => none

def emit (c : Cursor) (subject predicate object : Term) : Cursor :=
  { c with found := ⟨subject, predicate, object⟩ :: c.found }

variable (r : Reading)

/-- A node of its own, and the cursor after numbering it. -/
def fresh (c : Cursor) : Term × Cursor :=
  (.blank (r.unnamed c.unnamed), { c with unnamed := c.unnamed + 1 })

/-- What a reference means; nothing if it is relative and there is no base. -/
def meaning? (c : Cursor) (reference : List Char) : Option (List Char) :=
  if isAbsolute reference then some reference else c.base.map (r.resolve · reference)

def iri? (c : Cursor) : Option (List Char × Cursor) :=
  match c.tokens with
  | .reference value :: rest => (c.meaning? r value).map (·, c.moveTo rest)
  | .name label member :: rest => (c.names.lookup label).map fun ns => (ns ++ member, c.moveTo rest)
  | _ => none

/-- A predicate. -/
def verb? (c : Cursor) : Option (Term × Cursor) :=
  match c.tokens with
  | .word "a" :: rest => some (.iri Rdf.type, c.moveTo rest)
  | _ => (c.iri? r).map fun (value, c) => (.iri (String.ofList value), c)

def startsVerb (c : Cursor) : Bool :=
  match c.tokens with
  | .word word :: _ => word == "a"
  | .reference _ :: _ | .name _ _ :: _ => true
  | _ => false

/-- An IRI or a blank node without triples of its own. -/
def resource? (c : Cursor) : Option (Term × Cursor) :=
  match c.tokens with
  | .blank label :: rest => some (.blank (String.ofList label), c.moveTo rest)
  | .anon :: rest => some ((c.moveTo rest).fresh r)
  | _ => (c.iri? r).map fun (value, c) => (.iri (String.ofList value), c)

def literal? (c : Cursor) : Option (Term × Cursor) :=
  match c.tokens with
  | .string lexical :: .sign tag :: rest => (taggedLiteral? lexical tag).map (·, c.moveTo rest)
  | .string lexical :: .datatype :: rest =>
    ((c.moveTo rest).iri? r).map fun (datatype, c) => (typedLiteral lexical datatype, c)
  | .string lexical :: rest => some (.plain (String.ofList lexical), c.moveTo rest)
  | .number lexical datatype :: rest => some (typedLiteral lexical datatype.toList, c.moveTo rest)
  | .word word :: rest =>
    if word = "true" ∨ word = "false" then
      some (typedLiteral word.toList Xsd.boolean.toList, c.moveTo rest)
    else none
  | _ => none

mutual

/-- Reads an object, or a subject with triples of its own. -/
def object? : Nat → Cursor → Option (Term × Cursor)
  | 0, _ => none
  | fuel + 1, c =>
    match c.tokens with
    | .mark '[' :: rest => do
      let (self, c) := (c.moveTo rest).fresh r
      let c ← predicates? fuel self c
      return (self, ← c.expect? ']')
    | .mark '(' :: rest => elements? fuel (c.moveTo rest)
    | _ => (c.literal? r).or (c.resource? r)

/-- Reads the elements of a collection up to its closing parenthesis. Gives its first cell, or
`rdf:nil`. -/
def elements? : Nat → Cursor → Option (Term × Cursor)
  | 0, _ => none
  | fuel + 1, c =>
    match c.tokens with
    | .mark ')' :: rest => some (.iri Rdf.nil, c.moveTo rest)
    | _ => do
      let (cell, c) := c.fresh r
      let (element, c) ← object? fuel c
      let (next, c) ← elements? fuel (c.emit cell (.iri Rdf.first) element)
      return (cell, c.emit cell (.iri Rdf.rest) next)

/-- Reads objects with commas between them. -/
def objects? : Nat → Term → Term → Cursor → Option Cursor
  | 0, _, _, _ => none
  | fuel + 1, subject, predicate, c => do
    let (object, c) ← object? fuel c
    let c := c.emit subject predicate object
    match c.tokens with
    | .mark ',' :: rest => objects? fuel subject predicate (c.moveTo rest)
    | _ => return c

/-- Reads predicates with their objects, semicolons between them and perhaps after them. -/
def predicates? : Nat → Term → Cursor → Option Cursor
  | 0, _, _ => none
  | fuel + 1, subject, c => do
    let (predicate, c) ← c.verb? r
    let c ← objects? fuel subject predicate c
    further? fuel subject c

/-- Reads semicolons, and the predicates after them where there are any. -/
def further? : Nat → Term → Cursor → Option Cursor
  | 0, _, _ => none
  | fuel + 1, subject, c =>
    match c.tokens with
    | .mark ';' :: rest =>
      if (c.moveTo rest).startsVerb then predicates? fuel subject (c.moveTo rest)
      else further? fuel subject (c.moveTo rest)
    | _ => some c

end

/-- Reads a subject and its predicates. A subject with properties in brackets needs none outside of
them. -/
def triples? (fuel : Nat) (c : Cursor) : Option Cursor :=
  match c.tokens with
  | .mark '[' :: _ => do
    let (subject, c) ← object? r fuel c
    if c.startsVerb then predicates? r fuel subject c else some c
  | .mark '(' :: _ => do
    let (subject, c) ← object? r fuel c
    predicates? r fuel subject c
  | _ => do
    let (subject, c) ← c.resource? r
    predicates? r fuel subject c

/-- Sets the namespace of a label. -/
def declareName? (c : Cursor) (label reference : List Char) (rest : List Token) : Option Cursor :=
  (c.meaning? r reference).map fun ns => { c with tokens := rest, names := (label, ns) :: c.names }

/-- Sets the base of the references that follow. -/
def declareBase? (c : Cursor) (reference : List Char) (rest : List Token) : Option Cursor :=
  (c.meaning? r reference).map fun base => { c with tokens := rest, base := some base }

/-- Reads a declaration or the triples of a subject, with the full stop where there is one. -/
def statement? (fuel : Nat) (c : Cursor) : Option Cursor :=
  match c.tokens with
  | .sign word :: .name label [] :: .reference ns :: .mark '.' :: rest =>
    if word = "prefix".toList then c.declareName? r label ns rest else none
  | .sign word :: .reference base :: .mark '.' :: rest =>
    if word = "base".toList then c.declareBase? r base rest else none
  | .word "prefix" :: .name label [] :: .reference ns :: rest => c.declareName? r label ns rest
  | .word "base" :: .reference base :: rest => c.declareBase? r base rest
  | _ => do (← c.triples? r fuel).expect? '.'

/-- Reads statements up to the end of the text. -/
def statements? : Nat → Cursor → Option Cursor
  | 0, c => if c.tokens.isEmpty then some c else none
  | fuel + 1, c =>
    if c.tokens.isEmpty then some c
    else do
      let c ← c.statement? r fuel
      statements? fuel c

end Cursor

/-- Reads a document into the default graph of a dataset of its own. Every production that takes no
token leads at once to one that does, which bounds the depth of the reading by a multiple of the
number of tokens. -/
def readTurtle? (r : Reading) (text : List Char) : Option Dataset := do
  let tokens ← turtle.tokens? text
  let c ← Cursor.statements? r (4 * tokens.length + 4) { tokens }
  return .ofGraph (.ofList c.found.reverse)

end Formulary.Grammar
