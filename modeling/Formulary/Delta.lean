import Formulary.Document
import Formulary.Pattern.Evaluation
import Formulary.Pattern.Sparql

/-!
# Deltas

The triples that are removed and added between two snapshots of a document, the update that says so,
and what the update does to a dataset. Blank nodes of two documents have nothing to do with each
other: those of the old snapshot are matched as variables, those of the new one are added anew.
-/

namespace Formulary

structure Delta where
  removed : Graph
  added : Graph
deriving DecidableEq

namespace Delta

/-- The difference of the triples of two datasets, in both directions. -/
def between (old new : Dataset) : Delta :=
  ⟨old.union.diff new.union, new.union.diff old.union⟩

def isEmpty (d : Delta) : Bool := d.removed.isEmpty && d.added.isEmpty

/-- The removed triples without blank nodes. -/
def groundRemovals (d : Delta) : List Triple := d.removed.toList.filter (!·.hasBlank)

/-- The removed triples with blank nodes. -/
def blankRemovals (d : Delta) : List Triple := d.removed.toList.filter (·.hasBlank)

/-! ## Patterns for blank nodes -/

/-- A character of a variable name; one that may not stand there becomes an underscore. -/
def variableChar (c : Char) : Char := if c.isAlphanum || c == '_' then c else '_'

/-- The variable that stands for a blank node. -/
def blankVariable (label : String) : Variable :=
  ⟨"b_" ++ String.ofList (label.toList.map variableChar)⟩

/-- A blank node matches whatever node is there, any other term itself. -/
def slotOf : Term → Slot
  | .blank label => .var (blankVariable label)
  | term => .term term

/-- The pattern that finds a removed triple. -/
def patternOf (t : Triple) : TriplePattern :=
  ⟨slotOf t.subject, .term t.predicate, slotOf t.object⟩

/-- The patterns of the removed triples with blank nodes. -/
def patterns (d : Delta) : List TriplePattern := d.blankRemovals.map patternOf

/-! ## Update -/

/-- A block of lines inside a graph. -/
def graphBlock (target : Term) (lines : String) : String :=
  "\x7b\n  GRAPH " ++ target.text ++ " \x7b\n" ++ lines ++ "  \x7d\n\x7d"

/-- One line for each triple. -/
def tripleLines (triples : List Triple) : String :=
  String.join (triples.map fun t => line 2 t.text)

/-- The statements of the update, each only if it does something. -/
def statements (d : Delta) (target : Term) : List String :=
  (if d.groundRemovals.isEmpty then []
    else ["DELETE DATA " ++ graphBlock target (tripleLines d.groundRemovals)]) ++
  (if d.patterns.isEmpty then []
    else ["DELETE " ++ graphBlock target (templateText d.patterns 2) ++ "\nWHERE " ++
      graphBlock target (templateText d.patterns 2)]) ++
  (if d.added.isEmpty then []
    else ["INSERT DATA " ++ graphBlock target (tripleLines d.added.toList)])

/-- The update of a graph as one request. -/
def updateText (d : Delta) (target : Term) : String := " ;\n".intercalate (d.statements target)

/-- Does to the default graph what the update does to its graph. -/
def apply (d : Delta) (data : Dataset) : Dataset :=
  let data := data.setGraph none ((data.graph none).diff (.ofList d.groundRemovals))
  let data := if d.patterns.isEmpty then data
    else (data.deleteWhere d.patterns { patterns := d.patterns }).2
  data.insertMany none d.added.toList

end Delta

/-- What two snapshots of a document come to. -/
inductive Change where
  /-- There is nothing to write. -/
  | none
  | update (delta : Delta) (statement : String)

/-- The triples of a document, their blank nodes in a scope. -/
def scopedSnapshot (format : Format) (text scope : String) : Except DocumentError Dataset := do
  let read ← Document.read format text
  return (∅ : Dataset).insertScoped read .none scope

/-- The change between two snapshots. Equal texts mean no change; any others are compared triple by
triple, so that every triple with a blank node counts as changed. -/
def Change.between (format : Format) (old new : String) (target : Term) :
    Except DocumentError Change := do
  if old = new then
    let _ ← Document.read format old
    return .none
  let before ← scopedSnapshot format old "old_"
  let after ← scopedSnapshot format new "new_"
  let delta := Delta.between before after
  return if delta.isEmpty then .none else .update delta (delta.updateText target)

end Formulary
