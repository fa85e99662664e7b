import Formulary.Document.Node
import Formulary.InstanceQuery
import Formulary.Proofs.GrammarTokens

/-!
# The grammar of SPARQL

The tokens of SPARQL, and the productions for patterns, groups with optional groups, queries that
construct or delete, and updates of a graph. Every pattern ends with a full stop; what may also be
left out or abbreviated in SPARQL is not read. Any term may stand in any place of a pattern, where
SPARQL has fewer of them for subjects and predicates.
-/

namespace Formulary.Grammar
open Document

/-! ## Tokens -/

/-- Characters that may follow in the name of a variable. -/
def inVariable (c : Char) : Bool := isNameRest c && c != '-'

/-- Characters that the name of a variable may start with. -/
def startsVariable (c : Char) : Bool := isNameLetter c || c == '_' || c.isDigit

/-- Whether a text is the name of a variable. The empty text is taken for one too: a question mark
with nothing after it is then a variable without a name, which SPARQL does not have. -/
def isVariable (name : List Char) : Bool := name.head?.all startsVariable && name.all inVariable

/-- A variable, after its question mark. -/
def takeVariable? (text : List Char) : Option (Token × List Char) :=
  if (text.takeWhile inVariable).head?.all startsVariable then
    some (.word (String.ofList ('?' :: text.takeWhile inVariable)), text.dropWhile inVariable)
  else none

/-- Whether a text is a language tag: subtags with hyphens between them, the first one of letters, the
others of letters and digits. -/
def isTag (tag : List Char) : Bool :=
  match pieces (· == '-') tag with
  | [] => false
  | first :: rest => !first.isEmpty && first.all Char.isAlpha &&
      rest.all fun subtag => !subtag.isEmpty && subtag.all Char.isAlphanum

/-- A word of the grammar, in capital letters. -/
def keyword (text : List Char) : Token × List Char :=
  (.word (String.ofList ((text.takeWhile Char.isAlpha).map Char.toUpper)),
    text.dropWhile Char.isAlpha)

theorem isNameStart_eq_false {c : Char} (space : isSpace c) : (isNameLetter c || c == '_') = false := by
  rcases eq_of_isSpace space with rfl | rfl | rfl | rfl <;> decide

def sparql : Lexicon where
  isLetter c := isNameLetter c || c == '_'
  visible _ := isNameStart_eq_false
  other?
    | [] => none
    | c :: rest =>
      if c == '"' || c == '\'' then (Terminal.string? c rest).map (Prod.map .string id)
      else if c == '?' || c == '$' then takeVariable? rest
      else if "\x7b\x7d.;+".toList.contains c then some (.mark c, rest)
      else if c.isAlpha then some (keyword (c :: rest))
      else none

namespace Sparql

/-! ## Patterns -/

/-- Takes a token. -/
def expect? (token : Token) : List Token → Option (List Token)
  | [] => none
  | first :: rest => if first = token then some rest else none

/-- Reads a variable or a term. -/
def slot? : List Token → Option (Slot × List Token)
  | .word name :: rest =>
    match name.toList with
    | '?' :: name => some (.var ⟨String.ofList name⟩, rest)
    | _ => none
  | .reference value :: rest => some (.term (.iri (String.ofList value)), rest)
  | .blank label :: rest => some (.term (.blank (String.ofList label)), rest)
  | .string lexical :: .sign tag :: rest =>
    if isTag tag then
      some (.term (.literal (.lang (String.ofList lexical) (String.ofList tag))), rest)
    else none
  | .string lexical :: .datatype :: .reference value :: rest =>
    some (.term (typedLiteral lexical value), rest)
  | .string lexical :: rest => some (.term (.plain (String.ofList lexical)), rest)
  | _ => none

/-- The verb of a variable or a term. -/
def verbOf : Slot → Verb
  | .var v => .var v
  | .term t => .term t

/-- Reads a verb: a variable, a term, or an IRI to be followed one or more times. -/
def verb? : List Token → Option (Verb × List Token)
  | .reference value :: .mark '+' :: rest => some (.oneOrMore (.iri (String.ofList value)), rest)
  | tokens => (slot? tokens).map (Prod.map verbOf id)

/-- Reads a pattern with its full stop. -/
def pattern? (tokens : List Token) : Option (TriplePattern × List Token) := do
  let (subject, tokens) ← slot? tokens
  let (verb, tokens) ← verb? tokens
  let (object, tokens) ← slot? tokens
  return (⟨subject, verb, object⟩, ← expect? (.mark '.') tokens)

/-- Reads patterns as long as there are any. -/
def patterns : Nat → List Token → List TriplePattern × List Token
  | 0, tokens => ([], tokens)
  | fuel + 1, tokens =>
    match pattern? tokens with
    | some (p, rest) => Prod.map (p :: ·) id (patterns fuel rest)
    | none => ([], tokens)

/-! ## Groups and queries -/

/-- Reads something in braces. -/
def braced? {α : Type} (read : List Token → Option (α × List Token)) (tokens : List Token) :
    Option (α × List Token) := do
  let tokens ← expect? (.mark '\x7b') tokens
  let (value, tokens) ← read tokens
  return (value, ← expect? (.mark '\x7d') tokens)

mutual

/-- Reads the patterns of a group and the optional groups after them. -/
def group? : Nat → List Token → Option (Group × List Token)
  | 0, _ => none
  | fuel + 1, tokens => do
    let (required, tokens) := patterns fuel tokens
    let (optionals, tokens) ← optionals? fuel tokens
    return (⟨required, optionals⟩, tokens)

/-- Reads optional groups as long as there are any. -/
def optionals? : Nat → List Token → Option (List Group × List Token)
  | 0, _ => none
  | fuel + 1, tokens =>
    match expect? (.word "OPTIONAL") tokens with
    | none => some ([], tokens)
    | some tokens => do
      let (group, tokens) ← braced? (group? fuel) tokens
      let (others, tokens) ← optionals? fuel tokens
      return (group :: others, tokens)

end

/-- Reads whether a query constructs or deletes. -/
def mode? : List Token → Option (Bool × List Token)
  | .word "CONSTRUCT" :: rest => some (false, rest)
  | .word "DELETE" :: rest => some (true, rest)
  | _ => none

/-- Reads a query: its template, and the body after it. -/
def query? (fuel : Nat) (tokens : List Token) : Option (InstanceQuery × List Token) := do
  let (deletes, tokens) ← mode? tokens
  let (template, tokens) ← braced? (some <| patterns fuel ·) tokens
  let tokens ← expect? (.word "WHERE") tokens
  let (body, tokens) ← braced? (group? fuel) tokens
  return (⟨deletes, template, body⟩, tokens)

/-! ## Updates -/

/-- What an update does to a graph. -/
inductive Update where
  | deleteData (graph : Term) (triples : List Triple)
  /-- Deletes what the template makes of the answers to the patterns in a graph. -/
  | deleteWhere (graph : Term) (template : List TriplePattern) (source : Term)
      (body : List TriplePattern)
  | insertData (graph : Term) (triples : List Triple)
deriving DecidableEq

/-- Reads patterns in a graph, with braces around the graph and around them. -/
def graphBlock? (fuel : Nat) : List Token → Option ((Term × List TriplePattern) × List Token) :=
  braced? fun tokens => do
    match ← expect? (.word "GRAPH") tokens with
    | .reference value :: tokens =>
      let (found, tokens) ← braced? (some <| patterns fuel ·) tokens
      return ((.iri (String.ofList value), found), tokens)
    | _ => none

/-- The triple that a pattern without variables is. -/
def triple? : TriplePattern → Option Triple
  | ⟨.term subject, .term predicate, .term object⟩ => some ⟨subject, predicate, object⟩
  | _ => none

/-- Reads triples in a graph. -/
def data? (fuel : Nat) (tokens : List Token) : Option ((Term × List Triple) × List Token) := do
  let ((graph, found), tokens) ← graphBlock? fuel tokens
  return ((graph, ← found.mapM triple?), tokens)

/-- Whether a blank node stands at either end of a pattern. -/
def hasBlank (p : TriplePattern) : Bool :=
  [p.subject, p.object].any fun
    | .term t => t.isBlank
    | .var _ => false

/-- Reads patterns to be deleted in a graph, and those that find them. No blank node may stand in what
is deleted. -/
def deleteWhere? (fuel : Nat) (tokens : List Token) : Option (Update × List Token) := do
  let ((graph, template), tokens) ← graphBlock? fuel tokens
  let ((source, body), tokens) ← graphBlock? fuel (← expect? (.word "WHERE") tokens)
  if template.any hasBlank then none
  return (.deleteWhere graph template source body, tokens)

/-- Reads an update. Nothing that is deleted may be named by a blank node. -/
def update? (fuel : Nat) : List Token → Option (Update × List Token)
  | .word "DELETE" :: .word "DATA" :: tokens => do
    let ((graph, triples), tokens) ← data? fuel tokens
    if triples.any (·.hasBlank) then none
    return (.deleteData graph triples, tokens)
  | .word "DELETE" :: tokens => deleteWhere? fuel tokens
  | .word "INSERT" :: .word "DATA" :: tokens => do
    let ((graph, triples), tokens) ← data? fuel tokens
    return (.insertData graph triples, tokens)
  | _ => none

/-- Reads updates with semicolons between them. -/
def updates? : Nat → List Token → Option (List Update × List Token)
  | 0, _ => none
  | fuel + 1, tokens =>
    if tokens.isEmpty then some ([], [])
    else do
      let (first, tokens) ← update? fuel tokens
      match tokens with
      | .mark ';' :: tokens => (updates? fuel tokens).map (Prod.map (first :: ·) id)
      | _ => return ([first], tokens)

end Sparql

/-! ## Texts -/

/-- What a production makes of a whole text. Each step of its recursion takes a token, two at the end
apart, which bounds the depth of the reading. -/
def readWhole? {α : Type} (read : Nat → List Token → Option (α × List Token)) (text : List Char) :
    Option α := do
  let tokens ← sparql.tokens? text
  let (value, rest) ← read (tokens.length + 2) tokens
  if rest.isEmpty then some value else none

/-- The group of a text without braces around it. -/
def readBody? : List Char → Option Group := readWhole? Sparql.group?

/-- The group of a text in braces. -/
def readGroup? : List Char → Option Group := readWhole? fun fuel => Sparql.braced? (Sparql.group? fuel)

def readQuery? : List Char → Option InstanceQuery := readWhole? Sparql.query?

def readUpdates? : List Char → Option (List Sparql.Update) := readWhole? Sparql.updates?

end Formulary.Grammar
