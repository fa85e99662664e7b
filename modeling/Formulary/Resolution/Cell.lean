import Formulary.FormError
import Formulary.Path
import Formulary.Pattern
import Formulary.Resolution.Defect
import Formulary.Resolution.Question

/-!
# Cells of path lists

What the rows of a question say about one cell of a list, and the step that the cell stands for: an
IRI is a step forward, a blank node with nothing but one `sh:inversePath` a step back.
-/

namespace Formulary
open Std

/-- A cell of a list under a root. -/
structure Place where
  root : Term
  cell : Term
deriving DecidableEq, Repr

instance : Ord Place := ⟨compareLex (compareOn Place.root) (compareOn Place.cell)⟩
instance : TransOrd Place :=
  inferInstanceAs (TransCmp (compareLex (compareOn Place.root) (compareOn Place.cell)))
instance : LawfulEqOrd Place where
  eq_of_compare {a b} same := by
    obtain ⟨roots, cells⟩ := compareLex_eq_eq.mp same
    have roots : a.root = b.root := eq_of_compareOn roots
    have cells : a.cell = b.cell := eq_of_compareOn cells
    cases a; cases b; simp_all

/-- Something that is said of an element. -/
structure Mark where
  modifier : Term
  target : Term
deriving DecidableEq, Repr

instance : Ord Mark := ⟨compareLex (compareOn Mark.modifier) (compareOn Mark.target)⟩
instance : TransOrd Mark :=
  inferInstanceAs (TransCmp (compareLex (compareOn Mark.modifier) (compareOn Mark.target)))
instance : LawfulEqOrd Mark where
  eq_of_compare {a b} same := by
    obtain ⟨modifiers, targets⟩ := compareLex_eq_eq.mp same
    have modifiers : a.modifier = b.modifier := eq_of_compareOn modifiers
    have targets : a.target = b.target := eq_of_compareOn targets
    cases a; cases b; simp_all

/-- A step, and the cell that it comes from. -/
structure Hop where
  step : Step
  cell : Term
deriving DecidableEq, Repr

namespace Hop

private def walked (h : Hop) : Term := h.step.predicate

private def backwards (h : Hop) : Bool := h.step.direction == .inverse

instance : Ord Hop := ⟨compareLex (compareOn walked) <|
  compareLex (compareOn backwards) (compareOn cell)⟩
instance : TransOrd Hop := inferInstanceAs (TransCmp (compareLex (compareOn walked) <|
  compareLex (compareOn backwards) (compareOn cell)))
instance : LawfulEqOrd Hop where
  eq_of_compare {a b} same := by
    obtain ⟨predicates, rest⟩ := compareLex_eq_eq.mp same
    obtain ⟨directions, cells⟩ := compareLex_eq_eq.mp rest
    have predicates : a.walked = b.walked := eq_of_compareOn predicates
    have directions : a.backwards = b.backwards := eq_of_compareOn directions
    have cells : a.cell = b.cell := eq_of_compareOn cells
    clear same rest
    rcases a with ⟨⟨_, _ | _⟩, _⟩ <;> rcases b with ⟨⟨_, _ | _⟩, _⟩ <;>
      simp_all [walked, backwards]

end Hop

/-! ## Rows of a cell -/

/-- The elements of a cell, and everything that is said of them. -/
structure CellRows where
  elements : SortedSet Term
  marks : SortedSet Mark

namespace CellRows

/-- The cell that a row is about, where the question binds cells to the given variable. -/
def place? (cell : Variable) (row : Solution) : Option Place := do
  let root ← row.get? Question.root
  let cell ← row.get? cell
  let _ ← row.get? Question.element
  return ⟨root, cell⟩

def mark? (row : Solution) : Option Mark := do
  return ⟨← row.get? Question.modifier, ← row.get? Question.target⟩

/-- All cells that rows are about. -/
def places (cell : Variable) (rows : List Solution) : SortedSet Place :=
  .ofList (rows.filterMap (place? cell))

/-- What rows say about one cell. -/
def ofRows (cell : Variable) (rows : List Solution) (place : Place) : CellRows :=
  let own := rows.filter fun row => place? cell row = some place
  ⟨.ofList (own.filterMap (·.get? Question.element)), .ofList (own.filterMap mark?)⟩

/-- The step of a cell, or why there is none. Any property of a blank element but `sh:inversePath`
is an error of the whole schema. -/
def hop (rows : CellRows) (place : Place) : Except FormError (Except Defect Hop) :=
  match rows.elements.only? with
  | none => .ok (.error (.ambiguous place.cell))
  | some element =>
    if element.isIri then .ok (.ok ⟨.forward element, place.cell⟩)
    else if !element.isBlank then .ok (.error (.unresolvable element))
    else
      match rows.marks.toList.find? fun mark => mark.modifier ≠ .iri Sh.inversePath with
      | some mark => .error (.unsupportedModifier mark.modifier place.root)
      | none =>
        match rows.marks.toList with
        | [mark] =>
          if mark.target.isIri then .ok (.ok ⟨.inverse mark.target, place.cell⟩)
          else .ok (.error (.unresolvable element))
        | _ :: _ :: _ => .ok (.error (.ambiguous element))
        | [] => .ok (.error (.unresolvable element))

end CellRows

/-- The steps of all cells that rows are about, in order. -/
def hopsOf (cell : Variable) (rows : List Solution) :
    Except FormError (List (Place × Except Defect Hop)) :=
  (CellRows.places cell rows).toList.mapM fun place => do
    return (place, ← (CellRows.ofRows cell rows place).hop place)

end Formulary
