import Formulary.Vocabulary
import Formulary.Finite.Order
import Formulary.Finite.SortedSet

/-!
# Terms and triples

IRIs, blank nodes and literals, the triples made of them, their order, and their written form,
which N-Triples, Turtle and SPARQL share. Two terms are equal exactly when they are built alike.
-/

namespace Formulary
open Std

/-- Literal text with an optional datatype IRI and an optional language tag. -/
structure Literal where
  lexical : String
  datatype : Option String := none
  language : Option String := none
deriving DecidableEq, Repr, Inhabited

namespace Literal

/-- Literal of a datatype. `xsd:string` and `rdf:langString` are the plain form. -/
def typed (lexical datatype : String) : Literal :=
  if datatype = Xsd.string ∨ datatype = Rdf.langString then { lexical } else
    { lexical, datatype := some datatype }

def lang (lexical tag : String) : Literal := { lexical, language := some tag }

end Literal

inductive Term where
  | iri (value : String)
  | blank (label : String)
  | literal (value : Literal)
deriving DecidableEq, Repr, Inhabited

namespace Term

/-- Plain literal. -/
def plain (lexical : String) : Term := .literal { lexical }

def iri? : Term → Option String
  | .iri value => some value
  | _ => none

/-- The lexical text of a literal. -/
def lexical? : Term → Option String
  | .literal value => some value.lexical
  | _ => none

def isIri : Term → Bool
  | .iri _ => true
  | _ => false

def isBlank : Term → Bool
  | .blank _ => true
  | _ => false

def isLiteral : Term → Bool
  | .literal _ => true
  | _ => false

theorem exists_iri_of_isIri : ∀ {a : Term}, a.isIri → ∃ value, a = .iri value
  | .iri value, _ => ⟨value, rfl⟩

theorem exists_blank_of_isBlank : ∀ {a : Term}, a.isBlank → ∃ label, a = .blank label
  | .blank label, _ => ⟨label, rfl⟩

theorem not_isBlank_of_isIri {a : Term} (isIri : a.isIri) : ¬ a.isBlank := by
  obtain ⟨value, rfl⟩ := exists_iri_of_isIri isIri
  exact nofun

/-! ## Order

IRIs come before blank nodes and these before literals; then the text decides by code point, then
datatype and language, an absent one first. -/

private def rank : Term → Nat
  | .iri _ => 0
  | .blank _ => 1
  | .literal _ => 2

private def body : Term → String
  | .iri value => value
  | .blank label => label
  | .literal value => value.lexical

private def datatype : Term → Option String
  | .literal value => value.datatype
  | _ => none

private def language : Term → Option String
  | .literal value => value.language
  | _ => none

instance : Ord Term := ⟨compareLex (compareOn rank) <| compareLex (compareOn body) <|
  compareLex (compareOn datatype) (compareOn language)⟩

instance : TransOrd Term := inferInstanceAs (TransCmp (compareLex (compareOn rank) <|
  compareLex (compareOn body) <| compareLex (compareOn datatype) (compareOn language)))

instance : LawfulEqOrd Term where
  eq_of_compare {a b} same := by
    obtain ⟨ranks, rest⟩ := compareLex_eq_eq.mp same
    obtain ⟨bodies, rest⟩ := compareLex_eq_eq.mp rest
    obtain ⟨datatypes, languages⟩ := compareLex_eq_eq.mp rest
    have ranks : a.rank = b.rank := eq_of_compareOn ranks
    have bodies : a.body = b.body := eq_of_compareOn bodies
    have datatypes : a.datatype = b.datatype := eq_of_compareOn datatypes
    have languages : a.language = b.language := eq_of_compareOn languages
    clear same rest
    rcases a with _ | _ | ⟨_, _, _⟩ <;> rcases b with _ | _ | ⟨_, _, _⟩ <;>
      simp_all [rank, body, datatype, language]

/-! ## Written form -/

/-- Characters of a quoted literal that are written as escapes. -/
def escapeChar : Char → List Char
  | '\\' => ['\\', '\\']
  | '"' => ['\\', '"']
  | '\n' => ['\\', 'n']
  | '\r' => ['\\', 'r']
  | '\t' => ['\\', 't']
  | c => [c]

/-- Literal text between double quotes. -/
def quoted (lexical : String) : String :=
  "\"" ++ String.ofList (lexical.toList.flatMap escapeChar) ++ "\""

/-- An IRI stands in angle brackets, a blank node after an underscore and a colon, a literal in
quotes with its tag or else its datatype. -/
def text : Term → String
  | .iri value => "<" ++ value ++ ">"
  | .blank label => "_:" ++ label
  | .literal value =>
    match value.language, value.datatype with
    | some tag, _ => quoted value.lexical ++ "@" ++ tag
    | none, some datatype => quoted value.lexical ++ "^^<" ++ datatype ++ ">"
    | none, none => quoted value.lexical

/-- The term with a scope written before its label if it is a blank node. -/
def inScope (scope : String) : Term → Term
  | .blank label => .blank (scope ++ label)
  | term => term

end Term

/-! ## Triples -/

structure Triple where
  subject : Term
  predicate : Term
  object : Term
deriving DecidableEq, Repr, Inhabited

namespace Triple

/-- Subject, predicate and object decide in this order. -/
instance : Ord Triple := ⟨compareLex (compareOn subject) <|
  compareLex (compareOn predicate) (compareOn object)⟩

instance : TransOrd Triple := inferInstanceAs (TransCmp (compareLex (compareOn subject) <|
  compareLex (compareOn predicate) (compareOn object)))

instance : LawfulEqOrd Triple where
  eq_of_compare {a b} same := by
    obtain ⟨subjects, rest⟩ := compareLex_eq_eq.mp same
    obtain ⟨predicates, objects⟩ := compareLex_eq_eq.mp rest
    have subjects : a.subject = b.subject := eq_of_compareOn subjects
    have predicates : a.predicate = b.predicate := eq_of_compareOn predicates
    have objects : a.object = b.object := eq_of_compareOn objects
    cases a; cases b; simp_all

def hasBlank (t : Triple) : Bool := t.subject.isBlank || t.object.isBlank

/-- A predicate is an IRI, and no subject is a literal. -/
def isValid (t : Triple) : Bool := t.predicate.isIri && !t.subject.isLiteral

theorem isValid_iff {t : Triple} : t.isValid ↔ t.predicate.isIri ∧ t.subject.isLiteral = false := by
  simp [isValid]

def text (t : Triple) : String :=
  t.subject.text ++ " " ++ t.predicate.text ++ " " ++ t.object.text ++ " ."

/-- The triple with its blank subject and object moved into a scope. -/
def inScope (scope : String) (t : Triple) : Triple :=
  { t with subject := t.subject.inScope scope, object := t.object.inScope scope }

end Triple

/-- Graph, a finite set of triples in their order. -/
abbrev Graph := SortedSet Triple

end Formulary
