import Formulary.Document.Node
import Formulary.Iri
import Formulary.Xml.Event

/-!
# Scopes of RDF/XML

What an element hands down to those inside it: the namespaces of labels, the base of references and
the language of literals.
-/

namespace Formulary.RdfXml
open Document

/-- The namespace of the label `xml`, which no other label may have. -/
def xmlNs : List Char := "http://www.w3.org/XML/1998/namespace".toList

/-- The namespace of the label `xmlns`, which no other label may have. -/
def xmlnsNs : List Char := "http://www.w3.org/2000/xmlns/".toList

structure Scope where
  /-- Declared labels and their namespaces as written, the latest first; the default namespace has
  the empty label. -/
  names : List (List Char × List Char) := [("xml".toList, xmlNs), ("xmlns".toList, xmlnsNs)]
  base : Option Iri := none
  language : Option (List Char) := none

namespace Scope

/-- The name that a member of a declared namespace has. Namespaces are joined to members as they are
written, and the references in both are resolved after that. -/
def expand? (s : Scope) (entities : Xml.Entities) (label member : List Char) :
    Option (List Char) := do
  let ns ← s.names.lookup label
  if ns.isEmpty then none else Xml.decode? entities (ns ++ member)

/-- The name of a qualified name, whose label is not empty. -/
def qualified? (s : Scope) (entities : Xml.Entities) (name : List Char) : Option (List Char) := do
  let (label, member) ← cutAt? [':'] name
  if label.isEmpty then none else s.expand? entities label member

/-- The name of an element. Without a label it belongs to the default namespace. -/
def elementName? (s : Scope) (entities : Xml.Entities) (name : List Char) : Option (List Char) :=
  if name.contains ':' then s.qualified? entities name else s.expand? entities [] name

/-- Whether a label may stand for a namespace. -/
def mayBind (label ns : List Char) : Bool :=
  if label = "xml".toList then ns == xmlNs
  else label != "xmlns".toList && ns != xmlNs && ns != xmlnsNs

/-- The scope after an attribute, where that declares a namespace. -/
def bind? (s : Scope) (attr : List Char × List Char) : Option Scope :=
  if attr.1 = "xmlns".toList then some { s with names := ([], attr.2) :: s.names }
  else match after? "xmlns:".toList attr.1 with
    | some label =>
      if mayBind label attr.2 then some { s with names := (label, attr.2) :: s.names } else none
    | none => some s

/-- The scope after an attribute, where that sets the language or the base. -/
def refine? (s : Scope) (entities : Xml.Entities) (attr : List Char × List Char) : Option Scope :=
  if attr.1 = "xml:lang".toList then do
    let tag := (← Xml.decode? entities attr.2).map Char.toLower
    if LanguageTag.isWellFormed tag then some { s with language := some tag } else none
  else if attr.1 = "xml:base".toList then do
    let base ← Xml.decode? entities attr.2
    if Iri.isAbsolute base then some { s with base := some (Iri.split base) } else none
  else some s

/-- The IRI of a reference. -/
def iri? (s : Scope) (ref : List Char) : Option Term :=
  (Iri.read? s.base ref).map fun value => .iri (String.ofList value)

/-- The literal of a text: its datatype counts before the language. -/
def literal (s : Scope) (datatype : Option (List Char)) (text : List Char) : Term :=
  match datatype, s.language with
  | some datatype, _ => typedLiteral text datatype
  | none, some tag => .literal (.lang (String.ofList text) (String.ofList tag))
  | none, none => .plain (String.ofList text)

end Scope
end Formulary.RdfXml
