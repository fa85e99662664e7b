import Formulary.Proofs.IndependentOptionals
import Mathlib.Data.List.Nodup

/-!
# Rows of path patterns

The search for one or more steps comes to an end with the transitive closure, and a path pattern
answers a row with one extension for each pair of the closure that fits the row, whatever its two
ends are: constants, bound or free variables, or one variable twice (`Graph.path_rows_exact`).
-/

namespace Formulary
open Std Relation

/-! ## Filling slots -/

namespace Slot

variable {slot other : Slot} {row extended : Solution} {value : Term}

/-- The slot may stand for the term: it has no value yet, or this one. -/
def Admits (row : Solution) (value : Term) (slot : Slot) : Prop := ∀ a ∈ slot.value? row, a = value

instance : Decidable (slot.Admits row value) :=
  inferInstanceAs (Decidable (∀ a ∈ slot.value? row, a = value))

/-- The row with the variable of a slot bound to a term. -/
def put (row : Solution) (value : Term) : Slot → Solution
  | .var v => row.insert v value
  | .term _ => row

theorem bind?_eq : slot.bind? row value =
    if slot.Admits row value then some (slot.put row value) else none := by
  cases slot with
  | term t => simp [bind?, Admits, value?, put]
  | var v =>
    cases bound : row.get? v with
    | none => simp [bind?, Admits, value?, put, bound]
    | some a =>
      by_cases same : a = value
      · have unchanged : row.insert v value = row := SortedMap.ext_get? fun w => by
          rw [SortedMap.get?_insert]
          split
          · next here => rw [here, bound, same]
          · rfl
        simp [bind?, Admits, value?, put, bound, same, unchanged]
      · simp [bind?, Admits, value?, bound, same]

theorem value?_put_self (admits : slot.Admits row value) :
    slot.value? (slot.put row value) = some value := by
  cases slot with
  | term t => exact congrArg some (admits t rfl)
  | var v => simp [value?, put, SortedMap.get?_insert]

theorem extends_put (admits : slot.Admits row value) : row.Extends (slot.put row value) := by
  cases slot with
  | term t => exact .refl row
  | var v =>
    intro w t bound
    rw [put, SortedMap.get?_insert]
    split
    · next here => rw [admits t (here ▸ bound)]
    · exact bound

theorem value?_of_extends (extend : row.Extends extended) (bound : slot.value? row = some value) :
    slot.value? extended = some value := by
  cases slot with
  | term t => exact bound
  | var v => exact extend v value bound

/-- After one slot is filled, another one admits what it admitted before, and if it is the same slot
only the term that was put there. -/
theorem admits_put_iff {filled : Term} (admits : slot.Admits row filled) :
    other.Admits (slot.put row filled) value ↔
      other.Admits row value ∧ (slot = other → filled = value) := by
  cases slot with
  | term t =>
    refine ⟨fun later => ⟨later, ?_⟩, And.left⟩
    rintro rfl
    exact (admits t rfl).symm.trans (later t rfl)
  | var v =>
    cases other with
    | term t => simp [Admits, value?]
    | var w =>
      by_cases same : w = v
      · subst same
        have agree : filled = value → (Slot.var w).Admits row value := fun same a bound =>
          (admits a bound).trans same
        simpa [Admits, value?, put, SortedMap.get?_insert] using agree
      · simp [Admits, value?, put, SortedMap.get?_insert, same, Ne.symm same]

end Slot

namespace Solution

variable {row : Solution} {s o : Slot} {pair other : Term × Term}

/-- Two terms may stand in two slots: each slot admits its term, and equal slots get equal terms. -/
structure Fits (row : Solution) (s o : Slot) (pair : Term × Term) : Prop where
  subject : s.Admits row pair.1
  object : o.Admits row pair.2
  same : s = o → pair.1 = pair.2

instance : Decidable (row.Fits s o pair) :=
  decidable_of_iff (_ ∧ _ ∧ _) ⟨fun ⟨subject, object, same⟩ => ⟨subject, object, same⟩,
    fun fits => ⟨fits.subject, fits.object, fits.same⟩⟩

/-- The row with the variables of two slots bound to two terms. -/
def fill (row : Solution) (s o : Slot) (pair : Term × Term) : Solution :=
  o.put (s.put row pair.1) pair.2

/-- Binding one slot after the other fills both, where the terms fit. -/
theorem bind_bind?_eq {start reached : Term} :
    ((s.bind? row start).bind fun middle => o.bind? middle reached) =
      if row.Fits s o (start, reached) then some (row.fill s o (start, reached)) else none := by
  rw [Slot.bind?_eq]
  by_cases subject : s.Admits row start
  · have object : o.Admits (s.put row start) reached ↔ row.Fits s o (start, reached) := by
      rw [Slot.admits_put_iff subject]
      exact ⟨fun ⟨object, same⟩ => ⟨subject, object, same⟩, fun fits => ⟨fits.object, fits.same⟩⟩
    simp [subject, Slot.bind?_eq, object, fill]
  · have misfit : ¬ row.Fits s o (start, reached) := fun fits => subject fits.subject
    simp [subject, misfit]

theorem Fits.object_put (fits : row.Fits s o pair) : o.Admits (s.put row pair.1) pair.2 :=
  (Slot.admits_put_iff fits.subject).mpr ⟨fits.object, fits.same⟩

theorem Fits.extends_fill (fits : row.Fits s o pair) : row.Extends (row.fill s o pair) :=
  (Slot.extends_put fits.subject).trans (Slot.extends_put fits.object_put)

theorem Fits.subject_fill (fits : row.Fits s o pair) :
    s.value? (row.fill s o pair) = some pair.1 :=
  Slot.value?_of_extends (Slot.extends_put fits.object_put) (Slot.value?_put_self fits.subject)

theorem Fits.object_fill (fits : row.Fits s o pair) :
    o.value? (row.fill s o pair) = some pair.2 := Slot.value?_put_self fits.object_put

/-- The filled row tells what it was filled with. -/
theorem Fits.eq_of_fill (fits : row.Fits s o pair) (fits' : row.Fits s o other)
    (same : row.fill s o pair = row.fill s o other) : pair = other := by
  have subjects := fits.subject_fill
  have objects := fits.object_fill
  rw [same, fits'.subject_fill, Option.some.injEq] at subjects
  rw [same, fits'.object_fill, Option.some.injEq] at objects
  exact (Prod.ext subjects objects).symm

end Solution

/-! ## Pairs of a path -/

namespace Graph

variable {g : Graph} {predicate : Term} {row : Solution} {s o : Slot} {pair : Term × Term}

/-- The ends of the paths that a pattern finds under a row, in the order in which it finds them. -/
def pathPairs (g : Graph) (predicate : Term) (row : Solution) (s o : Slot) : List (Term × Term) :=
  ((TriplePattern.starts g s predicate row).toList.flatMap fun start =>
    (reachable g start predicate).toList.map (start, ·)).filter fun pair => row.Fits s o pair

theorem mem_pathPairs : pair ∈ g.pathPairs predicate row s o ↔
    TransGen (g.Edge predicate) pair.1 pair.2 ∧ row.Fits s o pair := by
  obtain ⟨start, reached⟩ := pair
  simp only [pathPairs, List.mem_filter, List.mem_flatMap, List.mem_map, SortedSet.mem_toList,
    decide_eq_true_eq, mem_reachable, Prod.mk.injEq]
  refine and_congr_left fun fits => ⟨?_, fun path => ?_⟩
  · rintro ⟨_, -, _, path, rfl, rfl⟩
    exact path
  · exact ⟨start, TriplePattern.mem_starts path fits.subject, reached, path, rfl, rfl⟩

theorem nodup_pathPairs : (g.pathPairs predicate row s o).Nodup := by
  refine .filter _ (List.nodup_flatMap.mpr ⟨fun start _ => ?_, ?_⟩)
  · exact (SortedSet.nodup_toList _).map fun _ _ same => (Prod.mk.inj same).2
  · refine (SortedSet.nodup_toList _).imp fun {start other} differ => ?_
    intro pair here there
    obtain ⟨_, -, rfl⟩ := List.mem_map.mp here
    obtain ⟨_, -, same⟩ := List.mem_map.mp there
    exact differ (Prod.mk.inj same).1.symm

/-- A path pattern fills its two slots with each of its pairs. -/
theorem extend_path_eq : TriplePattern.extend g ⟨s, .oneOrMore predicate, o⟩ row =
    (g.pathPairs predicate row s o).map (row.fill s o) := by
  rw [TriplePattern.extend, pathPairs, List.filter_flatMap, List.map_flatMap]
  simp only [Solution.bind_bind?_eq]
  refine List.flatMap_congr fun start _ => ?_
  induction (reachable g start predicate).toList with
  | nil => rfl
  | cons reached rest ih =>
    by_cases fits : row.Fits s o (start, reached) <;> simp [fits, ih]

/-- The search from a term along a predicate comes to an end, and what it finds are the terms at the
end of one or more steps. A path pattern answers a row by exactly one extension for each pair of terms
with one or more steps between them that fits the row: the extension keeps the row, puts the two terms
into the slots of the pattern, and is another one for every pair. -/
theorem path_rows_exact (g : Graph) (predicate : Term) :
    (∀ start, (∀ found, g.Searches predicate ([start], ∅) found ↔ found = reachable g start predicate) ∧
      ∀ a, a ∈ reachable g start predicate ↔ TransGen (g.Edge predicate) start a) ∧
    ∀ (row : Solution) (s o : Slot), ∃ pairs : List (Term × Term), pairs.Nodup ∧
      (∀ pair, pair ∈ pairs ↔ TransGen (g.Edge predicate) pair.1 pair.2 ∧ row.Fits s o pair) ∧
      TriplePattern.extend g ⟨s, .oneOrMore predicate, o⟩ row = pairs.map (row.fill s o) ∧
      (TriplePattern.extend g ⟨s, .oneOrMore predicate, o⟩ row).Nodup ∧
      ∀ pair ∈ pairs, row.Extends (row.fill s o pair) ∧
        s.value? (row.fill s o pair) = some pair.1 ∧ o.value? (row.fill s o pair) = some pair.2 := by
  refine ⟨fun start => ⟨fun _ => searches_iff, fun _ => mem_reachable⟩, fun row s o => ?_⟩
  have fits : ∀ pair ∈ g.pathPairs predicate row s o, row.Fits s o pair := fun pair member =>
    (mem_pathPairs.mp member).2
  refine ⟨g.pathPairs predicate row s o, nodup_pathPairs, fun _ => mem_pathPairs, extend_path_eq, ?_,
    fun pair member => ?_⟩
  · rw [extend_path_eq]
    exact nodup_pathPairs.map_on fun pair here other there same =>
      (fits pair here).eq_of_fill (fits other there) same
  · have here := fits pair member
    exact ⟨here.extends_fill, here.subject_fill, here.object_fill⟩

end Graph
end Formulary
