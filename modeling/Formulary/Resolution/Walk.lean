import Formulary.Pattern.Evaluation
import Formulary.Resolution.Cell

/-!
# Walks along path lists

The answers to the three questions joined: from the first cell of a list, each next cell is one that
names this one as the cell before it. The walk must end at a cell whose rest is `rdf:nil`.
-/

namespace Formulary
open Std

/-- What the questions have brought about the lists of a schema. -/
structure Lists where
  /-- The first cell of each list. -/
  heads : List (Place × Except Defect Hop)
  /-- The later cells of the lists. -/
  tails : List (Place × Except Defect Hop)
  /-- Cells, each with a cell before it. -/
  links : List (Term × Term)

namespace Lists

/-- Asks the questions. -/
def ofSchema (schema : Dataset) (kind : RootKind) : Except FormError Lists := do
  let tailRows := schema.select (Question.tails kind)
  let heads ← hopsOf Question.list (schema.select (Question.heads kind))
  let tails ← hopsOf Question.cell tailRows
  let links := tailRows.filterMap fun row => do
    return (← row.get? Question.previous, ← row.get? Question.cell)
  return { heads, tails, links }

/-- The first step of a list under a root. -/
def head? (l : Lists) (place : Place) : Option (Except Defect Hop) :=
  (l.heads.find? fun found => found.1 = place).map Prod.snd

/-- The steps that may follow a cell. -/
def next (l : Lists) (previous : Term) : SortedSet Hop :=
  .ofList (l.tails.filterMap fun found =>
    match found.2 with
    | .ok hop => if l.links.contains (previous, found.1.cell) then some hop else none
    | .error _ => none)

/-- Why a later cell has no step. -/
def broken? (l : Lists) (cell : Term) : Option Defect :=
  l.tails.findSome? fun found =>
    match found.2 with
    | .ok _ => none
    | .error defect => if found.1.cell = cell then some defect else none

/-- What becomes of a walk that ends at a cell. -/
def close (l : Lists) (schema : Dataset) (cell : Term) : Except Defect Chain :=
  if ⟨cell, .iri Rdf.rest, .iri Rdf.nil⟩ ∈ schema.graph none then .ok []
  else match (schema.objectOf cell (.iri Rdf.rest)).bind l.broken? with
    | some defect => .error defect
    | none => .error .unterminated

/-- The steps after a cell. Every later cell is visited at most once, so that their number bounds
the walk. -/
def follow (l : Lists) (schema : Dataset) : Nat → List Term → Term → Except Defect Chain
  | 0, _, _ => .error .cycle
  | fuel + 1, visited, cell =>
    match (l.next cell).toList with
    | [] => l.close schema cell
    | [hop] =>
      if visited.contains hop.cell then .error .cycle
      else (hop.step :: ·) <$> l.follow schema fuel (hop.cell :: visited) hop.cell
    | _ :: _ :: _ => .error (.ambiguous cell)

/-- The steps of the list that is the path of a root. -/
def walk (l : Lists) (schema : Dataset) (place : Place) : Except Defect Chain :=
  match l.head? place with
  | none => .error .missingHead
  | some (.error defect) => .error defect
  | some (.ok hop) => (hop.step :: ·) <$> l.follow schema (l.tails.length + 1) [hop.cell] hop.cell

/-- The steps of a root that has the given path values. -/
def chain (l : Lists) (schema : Dataset) (root : Term) (paths : SortedSet Term) :
    Except Defect Chain :=
  match paths.only? with
  | none => .error (.ambiguous root)
  | some path =>
    if path.isIri then .ok [.forward path]
    else if path.isBlank then l.walk schema ⟨root, path⟩
    else .error .notAPath

end Lists

/-- The path values of a root, by the rows of the first question. -/
def pathsOf (rows : List Solution) (root : Term) : SortedSet Term :=
  .ofList (rows.filterMap fun row =>
    if row.get? Question.root = some root then row.get? Question.path else none)

/-- The outcome for every root that has a path. -/
def resolveRoots (schema : Dataset) (kind : RootKind) :
    Except FormError (SortedMap Term (Except Defect Chain)) := do
  let lists ← Lists.ofSchema schema kind
  let rows := schema.select (Question.paths kind)
  let roots : SortedSet Term := .ofList (rows.filterMap (·.get? Question.root))
  return .ofList (roots.toList.map fun root =>
    (root, lists.chain schema root (pathsOf rows root)))

end Formulary
