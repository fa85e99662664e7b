import Formulary.Pattern

/-!
# Questions about paths

The three questions that find the paths of a schema: the values of `sh:path`, the first cells of
path lists, and the later cells with the cells before them. Each cell comes with its element and
with what else is said of that element.
-/

namespace Formulary

/-- What carries the paths of a schema: its fields, or the scopes of its generators. -/
inductive RootKind where
  | field
  | generator
deriving DecidableEq, Repr, Inhabited

namespace Question

def root : Variable := ⟨"root"⟩
def generator : Variable := ⟨"generator"⟩
def path : Variable := ⟨"path"⟩
def list : Variable := ⟨"list"⟩
def cell : Variable := ⟨"cell"⟩
def previous : Variable := ⟨"previous"⟩
def element : Variable := ⟨"element"⟩
def modifier : Variable := ⟨"modifier"⟩
def target : Variable := ⟨"target"⟩
def prototype : Variable := ⟨"prototype"⟩
def shape : Variable := ⟨"shape"⟩
def predicate : Variable := ⟨"predicate"⟩
def value : Variable := ⟨"value"⟩
def scope : Variable := ⟨"scope"⟩

/-- A subject variable, a fixed predicate and an object. -/
def fact (subject : Variable) (predicate : String) (object : Slot) : TriplePattern :=
  ⟨.var subject, .term (.iri predicate), object⟩

/-- The patterns that bind the roots of a kind. -/
def roots : RootKind → List TriplePattern
  | .field => [fact root Rdf.type (.term (.iri FormNs.field))]
  | .generator => [fact generator Rdf.type (.term (.iri FormNs.generator)),
      fact generator FormNs.scope (.var root)]

/-- What is said of an element, if anything is. -/
def modifiers : Group := { patterns := [⟨.var element, .var modifier, .var target⟩] }

/-- Every root with each of its path values. -/
def paths (kind : RootKind) : Group :=
  { patterns := roots kind ++ [fact root Sh.path (.var path)] }

/-- Every root with each list that starts at a path value. -/
def heads (kind : RootKind) : Group :=
  { patterns := roots kind ++ [fact root Sh.path (.var list), fact list Rdf.first (.var element)]
    optionals := [modifiers] }

/-- Every root with each later cell of its lists and each cell before that one. -/
def tails (kind : RootKind) : Group :=
  { patterns := roots kind ++ [fact root Sh.path (.var list),
      ⟨.var list, .oneOrMore (.iri Rdf.rest), .var cell⟩, fact previous Rdf.rest (.var cell),
      fact cell Rdf.first (.var element)]
    optionals := [modifiers] }

/-- Every generator with the predicates of its prototype's shape, and with its scopes. -/
def generated : Group :=
  { patterns := [fact generator Rdf.type (.term (.iri FormNs.generator)),
      fact generator FormNs.prototype (.var prototype), fact prototype FormNs.shape (.var shape),
      ⟨.var shape, .var predicate, .var value⟩]
    optionals := [{ patterns := [fact generator FormNs.scope (.var scope)] }] }

end Question
end Formulary
