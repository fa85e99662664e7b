import Formulary.Dataset

/-!
# Patterns

Triple patterns, the groups made of them, and solutions: what a query asks for and what answers it.
A group holds required patterns and optional groups, each of which is tried in turn.
-/

namespace Formulary
open Std

structure Variable where
  name : String
deriving DecidableEq, Repr, Inhabited

instance : Ord Variable := ⟨compareOn Variable.name⟩
instance : TransOrd Variable := inferInstanceAs (TransCmp (compareOn Variable.name))
instance : LawfulEqOrd Variable where
  eq_of_compare {a b} same := by
    have names : a.name = b.name := eq_of_compareOn same
    cases a; cases b; simp_all

/-- Terms that variables are bound to. -/
abbrev Solution := SortedMap Variable Term

/-- Subject or object of a pattern. -/
inductive Slot where
  | var (v : Variable)
  | term (t : Term)
deriving DecidableEq, Repr, Inhabited

namespace Slot

/-- What a solution puts into a slot; nothing if its variable is unbound. -/
def value? (row : Solution) : Slot → Option Term
  | .var v => row.get? v
  | .term t => some t

/-- Binds a slot to a term; fails where the slot already stands for another. -/
def bind? (row : Solution) (value : Term) : Slot → Option Solution
  | .term t => if t = value then some row else none
  | .var v =>
    match row.get? v with
    | some bound => if bound = value then some row else none
    | none => some (row.insert v value)

end Slot

/-- Predicate of a pattern. -/
inductive Verb where
  | term (predicate : Term)
  | var (v : Variable)
  /-- One or more steps along the same predicate. -/
  | oneOrMore (predicate : Term)
deriving DecidableEq, Repr, Inhabited

structure TriplePattern where
  subject : Slot
  verb : Verb
  object : Slot
deriving DecidableEq, Repr, Inhabited

/-- The valid triple that a solution makes of a pattern. There is none where a variable is unbound or
the verb is a path. -/
def TriplePattern.instantiate? (p : TriplePattern) (row : Solution) : Option Triple := do
  let subject ← p.subject.value? row
  let predicate ←
    match p.verb with
    | .term t => some t
    | .var v => row.get? v
    | .oneOrMore _ => none
  let object ← p.object.value? row
  let t : Triple := ⟨subject, predicate, object⟩
  if t.isValid then some t else none

/-- All triples that solutions make of a template. -/
def instantiateAll (template : List TriplePattern) (rows : List Solution) : Graph :=
  .ofList (rows.flatMap fun row => template.filterMap (·.instantiate? row))

/-- Required patterns, then optional groups in the order in which they are tried. -/
structure Group where
  patterns : List TriplePattern := []
  optionals : List Group := []
deriving Inhabited

namespace Group

mutual

/-- Every pattern of a group, the required ones first, then those of each optional group. -/
def allPatterns : Group → List TriplePattern
  | ⟨patterns, optionals⟩ => patterns ++ patternsOf optionals

/-- Every pattern of a list of groups. -/
def patternsOf : List Group → List TriplePattern
  | [] => []
  | group :: rest => group.allPatterns ++ patternsOf rest

end

end Group
end Formulary
