import Formulary.Config
import Formulary.Delta
import Formulary.Field
import Formulary.Json.Record

/-!
# Encodings in JSON

How the values of this library are written in JSON, and read from it.
-/

namespace Formulary

namespace Literal

def members (l : Literal) : List (String × Json) := [("lexical", .string l.lexical),
  ("datatype", Json.ofOption .string l.datatype), ("language", Json.ofOption .string l.language)]

def toJson (l : Literal) : Json := .object l.members

def ofJson? (j : Json) : Option Literal := do
  let r ← Record.ofJson? ["lexical", "datatype", "language"] j
  return {
    lexical := ← r.need? "lexical" Json.string?
    datatype := ← r.optional? "datatype" Json.string?
    language := ← r.optional? "language" Json.string? }

end Literal

namespace Term

def toJson : Term → Json
  | .iri value => .object [("kind", .string "iri"), ("value", .string value)]
  | .blank label => .object [("kind", .string "blank_node"), ("id", .string label)]
  | .literal value => .object (("kind", .string "literal") :: value.members)

def kinds : List String := ["iri", "blank_node", "literal"]

/-- The term of a kind, which its other members describe. -/
def ofKind? (kind : String) (rest : Json) : Option Term := do
  if kind = "iri" then
    return .iri (← (← Record.ofJson? ["value"] rest).need? "value" Json.string?)
  else if kind = "blank_node" then
    return .blank (← (← Record.ofJson? ["id"] rest).need? "id" Json.string?)
  else if kind = "literal" then return .literal (← Literal.ofJson? rest)
  else none

def ofJson? (j : Json) : Option Term := do
  let (kind, rest) ← j.kind?
  ofKind? (← kind.string?) rest

/-- A term inside a value that has a kind itself. -/
def ofInnerJson? (j : Json) : Option Term := do
  let (kind, rest) ← j.kind?
  ofKind? (← kind.innerKind? kinds) rest

end Term

namespace Triple

def toJson (t : Triple) : Json := .object [("subject", t.subject.toJson),
  ("predicate", t.predicate.toJson), ("object", t.object.toJson)]

def ofJson? (j : Json) : Option Triple := do
  let r ← Record.ofJson? ["subject", "predicate", "object"] j
  return ⟨← r.need? "subject" Term.ofJson?, ← r.need? "predicate" Term.ofJson?,
    ← r.need? "object" Term.ofJson?⟩

end Triple

def Graph.toJson (g : Graph) : Json := .array (g.toList.map Triple.toJson)

namespace Format

/-- The name of a format as one word of JSON. -/
def key : Format → String
  | .nTriples => "n_triples"
  | .turtle => "turtle"
  | .rdfXml => "rdf_xml"

def toJson (f : Format) : Json := .string f.key

def ofJson? (j : Json) : Option Format := do
  let name ← j.name?
  [Format.nTriples, .turtle, .rdfXml].find? (·.key == name)

end Format

namespace Namespaces

def toJson (n : Namespaces) : Json := .object [("entries",
  .array (n.entries.map fun entry => .array [.string entry.1, .string entry.2]))]

def entryOfJson? : Json → Option (String × String)
  | .array [.string label, .string ns] => some (label, ns)
  | _ => none

def ofJson? (j : Json) : Option Namespaces := do
  return ⟨← (← Record.ofJson? ["entries"] j).need? "entries" (Json.list? entryOfJson?)⟩

end Namespaces

namespace Direction

def key : Direction → String
  | .forward => "forward"
  | .inverse => "inverse"

def ofJson? (j : Json) : Option Direction := do
  let name ← j.name?
  [Direction.forward, .inverse].find? (·.key == name)

end Direction

namespace Step

def toJson (s : Step) : Json := .object [("predicate", s.predicate.toJson),
  ("direction", .string s.direction.key)]

def ofJson? (j : Json) : Option Step := do
  let r ← Record.ofJson? ["predicate", "direction"] j
  return ⟨← r.need? "predicate" Term.ofJson?, ← r.need? "direction" Direction.ofJson?⟩

end Step

namespace Chain

def toJson (c : Chain) : Json := .array (c.map Step.toJson)

def ofJson? (j : Json) : Option Chain := Json.list? Step.ofJson? j

end Chain

namespace Path

def toJson : Path → Json
  | .simple predicate => .object [("kind", .string "simple"), ("value", predicate.toJson)]
  | .list steps => .object [("kind", .string "list"), ("value", Chain.toJson steps)]

def ofJson? (j : Json) : Option Path := do
  let r ← Record.ofJson? ["kind", "value"] j
  let kind ← r.need? "kind" Json.name?
  if kind = "simple" then return .simple (← r.need? "value" Term.ofJson?)
  else if kind = "list" then return .list (← r.need? "value" Chain.ofJson?)
  else none

end Path

namespace FieldKey

def toJson : FieldKey → Json
  | .field f => .object [("kind", .string "field"), ("field", f.toJson)]
  | .generated generator predicate => .object [("kind", .string "generated"),
      ("generator", generator.toJson), ("predicate", predicate.toJson)]

def ofJson? (j : Json) : Option FieldKey := do
  let (kind, rest) ← j.kind?
  let kind ← kind.string?
  if kind = "field" then
    return .field (← (← Record.ofJson? ["field"] rest).need? "field" Term.ofInnerJson?)
  else if kind = "generated" then
    let r ← Record.ofJson? ["generator", "predicate"] rest
    return .generated (← r.need? "generator" Term.ofInnerJson?)
      (← r.need? "predicate" Term.ofInnerJson?)
  else none

end FieldKey

namespace Config

def toJson (c : Config) : Json := .object [("target_graph", .string c.targetGraph),
  ("merge_graph", .string c.mergeGraph),
  ("prefixes", .object (c.prefixes.entries.map fun entry => (entry.1, .string entry.2)))]

/-- Labels with their namespaces; the last one of a label counts. -/
def labels? : Json → Option (SortedMap String String)
  | .object members => do
    let entries ← members.mapM fun member => do return (member.1, ← member.2.string?)
    return .ofList entries
  | _ => none

/-- A configuration; members left out have their default values. -/
def ofJson? (j : Json) : Option Config := do
  let r ← Record.ofJson? ["target_graph", "merge_graph", "prefixes"] j
  let base : Config := {}
  return {
    targetGraph := ← r.orElse? "target_graph" Json.string? base.targetGraph
    mergeGraph := ← r.orElse? "merge_graph" Json.string? base.mergeGraph
    prefixes := ← r.orElse? "prefixes" labels? base.prefixes }

end Config

def FieldInfo.toJson (f : FieldInfo) : Json := .object [("uri", f.uri.toJson),
  ("label", Json.ofOption .string f.label),
  ("display_type", Json.ofOption Term.toJson f.displayType),
  ("order", Json.ofOption (Json.ofInt ·.toInt) f.order), ("group", Json.ofOption Term.toJson f.group),
  ("path", Json.ofOption Chain.toJson f.path)]

def Delta.toJson (d : Delta) : Json := .object [("removed", d.removed.toJson),
  ("added", d.added.toJson)]

def Change.toJson : Change → Json
  | .none => .object [("outcome", .string "no_op")]
  | .update delta statement => .object [("outcome", .string "update"), ("delta", delta.toJson),
      ("statement", .string statement)]

end Formulary
