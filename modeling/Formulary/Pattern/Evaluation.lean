import Formulary.Pattern

/-!
# Evaluation of patterns

Solutions of a group over a graph, found by extending a seed: each required pattern extends every
row by every triple that fits, and each optional group extends the rows that it can and leaves the
others as they are.
-/

namespace Formulary
open Std

/-- The objects of a subject and predicate, in order. -/
def Graph.objects (g : Graph) (subject predicate : Term) : List Term :=
  (g.toList.filter fun t => t.subject == subject && t.predicate == predicate).map (·.object)

/-- Adds what is reachable from the queued terms to the terms already seen. Every step takes one
term off the queue, and a term is queued once at most. -/
def reachableFrom (g : Graph) (predicate : Term) : Nat → List Term → SortedSet Term → SortedSet Term
  | 0, _, seen => seen
  | _, [], seen => seen
  | fuel + 1, node :: queue, seen =>
    let fresh := (SortedSet.ofList (g.objects node predicate)).diff seen
    reachableFrom g predicate fuel (queue ++ fresh.toList) (seen.insertMany fresh.toList)

/-- The terms at the end of one or more steps along a predicate. The start is among them only where
a cycle leads back to it. -/
def reachable (g : Graph) (start predicate : Term) : SortedSet Term :=
  reachableFrom g predicate (g.size + 1) [start] ∅

namespace TriplePattern

/-- Binds a pattern to a triple, the verb first, then subject and object. -/
def bindTriple? (p : TriplePattern) (row : Solution) (t : Triple) : Option Solution := do
  let row ←
    match p.verb with
    | .term predicate => if predicate = t.predicate then some row else none
    | .var v => (Slot.var v).bind? row t.predicate
    | .oneOrMore _ => none
  let row ← p.subject.bind? row t.subject
  p.object.bind? row t.object

/-- The terms at which a path pattern may start: the bound subject, or every subject of the
predicate. -/
def starts (g : Graph) (subject : Slot) (predicate : Term) (row : Solution) : SortedSet Term :=
  match subject.value? row with
  | some start => .ofList [start]
  | none => .ofList ((g.toList.filter (·.predicate == predicate)).map (·.subject))

/-- All extensions of a row by a pattern, in the order of the matching triples, or for a path by
start and then by the term reached. -/
def extend (g : Graph) (p : TriplePattern) (row : Solution) : List Solution :=
  match p.verb with
  | .oneOrMore predicate =>
    (starts g p.subject predicate row).toList.flatMap fun start =>
      (reachable g start predicate).toList.filterMap fun reached =>
        (p.subject.bind? row start).bind (p.object.bind? · reached)
  | _ => g.toList.filterMap (p.bindTriple? row)

end TriplePattern

/-- Extends rows by patterns one after another. -/
def extendAll (g : Graph) (patterns : List TriplePattern) (rows : List Solution) : List Solution :=
  patterns.foldl (fun rows p => rows.flatMap (p.extend g)) rows

/-- The extensions of a row, or the row itself where there is none. -/
def orKeep (row : Solution) (extensions : List Solution) : List Solution :=
  if extensions.isEmpty then [row] else extensions

namespace Group

mutual

/-- The solutions of a group that extend a seed. -/
def evaluate (g : Graph) : Group → Solution → List Solution
  | ⟨patterns, optionals⟩, seed => evaluateOptionals g optionals (extendAll g patterns [seed])

/-- Tries optional groups in order on all rows. -/
def evaluateOptionals (g : Graph) : List Group → List Solution → List Solution
  | [], rows => rows
  | group :: rest, rows =>
    evaluateOptionals g rest (rows.flatMap fun row => orKeep row (group.evaluate g row))

end

end Group

namespace Dataset

/-- The solutions of a group over one graph. -/
def selectIn (d : Dataset) (name : GraphName) (group : Group) : List Solution :=
  group.evaluate (d.graph name) ∅

/-- The solutions of a group over the default graph. -/
def select (d : Dataset) (group : Group) : List Solution := d.selectIn none group

/-- The triples that a template makes of the solutions over the default graph. -/
def construct (d : Dataset) (template : List TriplePattern) (group : Group) : Graph :=
  instantiateAll template (d.select group)

/-- Takes the constructed triples out of the default graph; gives those that were there. -/
def deleteWhere (d : Dataset) (template : List TriplePattern) (group : Group) : Graph × Dataset :=
  let here := d.graph none
  let doomed := d.construct template group
  (doomed.filter fun t => decide (t ∈ here), d.setGraph none (here.diff doomed))

end Dataset
end Formulary
