import Formulary.Term
import Formulary.Finite.SortedMap

/-!
# Paths

The steps that lead from an instance to the values of a field, and the keys under which the paths of
a schema are held.
-/

namespace Formulary
open Std

inductive Direction where
  | forward
  | inverse
deriving DecidableEq, Repr, Inhabited

/-- One step along a predicate. -/
structure Step where
  predicate : Term
  direction : Direction
deriving DecidableEq, Repr, Inhabited

namespace Step

def forward (predicate : Term) : Step := ⟨predicate, .forward⟩

def inverse (predicate : Term) : Step := ⟨predicate, .inverse⟩

/-- The predicate, after a caret if it is walked backwards. -/
def text (s : Step) : String :=
  match s.direction with
  | .forward => s.predicate.text
  | .inverse => "^" ++ s.predicate.text

end Step

/-- Steps in the order in which they are walked. -/
abbrev Chain := List Step

/-- The steps with a slash between any two. -/
def Chain.text (c : Chain) : String := " / ".intercalate (c.map Step.text)

/-- The path that a field declares. -/
inductive Path where
  | simple (predicate : Term)
  | list (steps : List Step)
deriving DecidableEq, Repr, Inhabited

/-- A predicate alone is one step forward. -/
def Path.chain : Path → Chain
  | .simple predicate => [.forward predicate]
  | .list steps => steps

/-- What a resolved path belongs to. -/
inductive FieldKey where
  | field (field : Term)
  /-- A predicate that a generator's prototype writes. -/
  | generated (generator predicate : Term)
deriving DecidableEq, Repr, Inhabited

namespace FieldKey

def text : FieldKey → String
  | .field f => f.text
  | .generated generator predicate => generator.text ++ " -> " ++ predicate.text

private def keyRank : FieldKey → Nat
  | .field _ => 0
  | .generated _ _ => 1

private def owner : FieldKey → Term
  | .field f => f
  | .generated generator _ => generator

private def member : FieldKey → Option Term
  | .field _ => none
  | .generated _ predicate => some predicate

/-- Declared fields come before generated ones; then the terms decide. -/
instance : Ord FieldKey := ⟨compareLex (compareOn keyRank) <|
  compareLex (compareOn owner) (compareOn member)⟩

instance : TransOrd FieldKey := inferInstanceAs (TransCmp (compareLex (compareOn keyRank) <|
  compareLex (compareOn owner) (compareOn member)))

instance : LawfulEqOrd FieldKey where
  eq_of_compare {a b} same := by
    obtain ⟨ranks, rest⟩ := compareLex_eq_eq.mp same
    obtain ⟨owners, members⟩ := compareLex_eq_eq.mp rest
    have ranks : a.keyRank = b.keyRank := eq_of_compareOn ranks
    have owners : a.owner = b.owner := eq_of_compareOn owners
    have members : a.member = b.member := eq_of_compareOn members
    clear same rest
    cases a <;> cases b <;> simp_all [keyRank, owner, member]

end FieldKey

/-- The resolved paths of a schema. -/
abbrev PathMap := SortedMap FieldKey Chain

end Formulary
