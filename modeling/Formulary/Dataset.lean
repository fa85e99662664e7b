import Formulary.Term
import Formulary.Finite.SortedMap

/-!
# Datasets

A dataset is a default graph and named graphs. `Dataset.graph` is its view: a graph that was never
written is empty, and a graph that becomes empty is no longer held, so datasets with the same
graphs are the same value.
-/

namespace Formulary
open Std

/-- Name of a graph in a dataset; `none` names the default graph. -/
abbrev GraphName := Option Term

/-- Graphs by name, none of them empty. -/
structure Dataset where
  graphs : SortedMap GraphName Graph
  occupied : ∀ entry ∈ graphs.entries, entry.2 ≠ ∅
deriving DecidableEq

namespace Dataset

instance : EmptyCollection Dataset := ⟨⟨∅, nofun⟩⟩
instance : Inhabited Dataset := ⟨∅⟩

/-- The triples of a graph; none if the dataset does not hold it. -/
def graph (d : Dataset) (name : GraphName) : Graph := (d.graphs.get? name).getD ∅

private theorem occupied_place {name : GraphName} {g : Graph} {list : List (GraphName × Graph)}
    (here : g ≠ ∅) (there : ∀ entry ∈ list, entry.2 ≠ ∅) :
    ∀ entry ∈ SortedMap.place name g list, entry.2 ≠ ∅ := fun entry member => by
  rcases SortedMap.mem_place member with same | old
  · exact same ▸ here
  · exact there entry old

/-- Makes a graph hold exactly the given triples. -/
def setGraph (d : Dataset) (name : GraphName) (g : Graph) : Dataset :=
  if empty : g = ∅ then
    ⟨d.graphs.erase name, fun entry member => d.occupied entry (List.mem_filter.mp member).1⟩
  else ⟨d.graphs.insert name g, occupied_place empty d.occupied⟩

theorem graph_setGraph {d : Dataset} {name other : GraphName} {g : Graph} :
    (d.setGraph name g).graph other = if other = name then g else d.graph other := by
  by_cases empty : g = ∅
  · simp only [setGraph, empty, dif_pos, graph, SortedMap.get?_erase]
    split <;> simp
  · simp only [setGraph, empty, dif_neg, not_false_eq_true, graph, SortedMap.get?_insert]
    split <;> simp

@[simp] theorem graph_empty {name : GraphName} : (∅ : Dataset).graph name = ∅ := rfl

/-- The dataset whose default graph is the given one and which has no other. -/
def ofGraph (g : Graph) : Dataset := (∅ : Dataset).setGraph none g

theorem graph_ofGraph {g : Graph} {name : GraphName} :
    (ofGraph g).graph name = if name = none then g else ∅ := by
  rw [ofGraph, graph_setGraph, graph_empty]

/-- Adds a triple to a graph; tells whether it is new there. -/
def insertIn (d : Dataset) (name : GraphName) (t : Triple) : Bool × Dataset :=
  (decide (t ∉ d.graph name), d.setGraph name ((d.graph name).insert t))

/-- Takes a triple out of a graph; tells whether it was there. -/
def removeIn (d : Dataset) (name : GraphName) (t : Triple) : Bool × Dataset :=
  (decide (t ∈ d.graph name), d.setGraph name ((d.graph name).erase t))

/-- Adds triples to a graph. -/
def insertMany (d : Dataset) (name : GraphName) (triples : List Triple) : Dataset :=
  d.setGraph name ((d.graph name).insertMany triples)

/-! ## Inspection -/

/-- The triples of every graph, graph by graph. -/
def triples (d : Dataset) : List Triple := d.graphs.values.flatMap (·.toList)

theorem mem_triples {d : Dataset} {t : Triple} : t ∈ d.triples ↔ ∃ name, t ∈ d.graph name := by
  simp only [triples, SortedMap.values, List.mem_flatMap, List.mem_map, SortedSet.mem_toList]
  constructor
  · rintro ⟨_, ⟨⟨name, g⟩, entry, rfl⟩, member⟩
    refine ⟨name, ?_⟩
    rw [graph, SortedMap.get?_eq_some_iff.mpr entry]
    exact member
  · rintro ⟨name, member⟩
    rw [graph] at member
    cases held : d.graphs.get? name with
    | none => simp [held] at member
    | some g =>
      rw [held] at member
      exact ⟨g, ⟨_, SortedMap.get?_eq_some_iff.mp held, rfl⟩, member⟩

/-- The union of all graphs. -/
def union (d : Dataset) : Graph := .ofList d.triples

theorem mem_union {d : Dataset} {t : Triple} : t ∈ d.union ↔ ∃ name, t ∈ d.graph name := by
  rw [union, SortedSet.mem_ofList, mem_triples]

theorem mem_union_ofGraph {g : Graph} {t : Triple} : t ∈ (ofGraph g).union ↔ t ∈ g := by
  simp only [mem_union, graph_ofGraph]
  constructor
  · rintro ⟨name, member⟩
    by_cases same : name = none
    · rwa [if_pos same] at member
    · rw [if_neg same] at member
      exact absurd member SortedSet.not_mem_empty
  · exact fun member => ⟨none, member⟩

def names (d : Dataset) : List GraphName := d.graphs.keys

theorem mem_names {d : Dataset} {name : GraphName} : name ∈ d.names ↔ d.graph name ≠ ∅ := by
  rw [names, SortedMap.mem_keys, graph]
  cases held : d.graphs.get? name with
  | none => simp
  | some g =>
    have occupied : g ≠ ∅ := d.occupied (name, g) (SortedMap.get?_eq_some_iff.mp held)
    simp [occupied]

theorem names_ofGraph {g : Graph} (occupied : g ≠ ∅) : (ofGraph g).names = [none] := by
  rw [ofGraph, setGraph, dif_neg occupied]
  rfl

/-- The number of triples, each graph counted for itself. -/
def size (d : Dataset) : Nat := d.triples.length

def isEmpty (d : Dataset) : Bool := d.graphs.isEmpty

/-- Terms wanted in the three places of a triple; `none` admits any. -/
structure Selector where
  subject : Option Term := none
  predicate : Option Term := none
  object : Option Term := none

def Selector.admits (s : Selector) (t : Triple) : Bool :=
  s.subject.all (· == t.subject) && s.predicate.all (· == t.predicate) && s.object.all (· == t.object)

/-- The triples of a graph that a selector admits, in order. -/
def matchingIn (d : Dataset) (name : GraphName) (s : Selector) : List Triple :=
  (d.graph name).toList.filter s.admits

/-- Takes the triples that a selector admits out of a graph; gives their number. -/
def removeMatchingIn (d : Dataset) (name : GraphName) (s : Selector) : Nat × Dataset :=
  ((d.matchingIn name s).length, d.setGraph name ((d.graph name).filter fun t => !s.admits t))

/-- The first object of a subject and predicate in the default graph. -/
def objectOf (d : Dataset) (subject predicate : Term) : Option Term :=
  ((d.graph none).toList.find? fun t => t.subject == subject && t.predicate == predicate).map
    (·.object)

theorem mem_of_objectOf {d : Dataset} {subject predicate object : Term}
    (found : d.objectOf subject predicate = some object) :
    ⟨subject, predicate, object⟩ ∈ d.graph none := by
  obtain ⟨s, first, rfl⟩ := Option.map_eq_some_iff.mp found
  have sought := List.find?_some first
  simp only [Bool.and_eq_true, beq_iff_eq] at sought
  obtain ⟨rfl, rfl⟩ := sought
  exact List.mem_of_find?_eq_some first

/-! ## Whole graphs -/

/-- Adds the triples of all graphs of another dataset to a graph, with a scope before the labels of
their blank nodes. -/
def insertScoped (d : Dataset) (other : Dataset) (name : GraphName) (scope : String) : Dataset :=
  d.insertMany name (other.triples.map (·.inScope scope))

theorem mem_graph_insertScoped {d other : Dataset} {name : GraphName} {scope : String} {t : Triple} :
    t ∈ (d.insertScoped other name scope).graph name ↔
      t ∈ d.graph name ∨ ∃ place, ∃ s ∈ other.graph place, s.inScope scope = t := by
  rw [insertScoped, insertMany, graph_setGraph, if_pos rfl, SortedSet.mem_insertMany, List.mem_map]
  simp only [mem_triples]
  constructor
  · rintro (there | ⟨s, ⟨place, member⟩, same⟩)
    · exact .inl there
    · exact .inr ⟨place, s, member, same⟩
  · rintro (there | ⟨place, s, member, same⟩)
    · exact .inl there
    · exact .inr ⟨s, ⟨place, member⟩, same⟩

/-- Detaches a graph: the dataset of that graph alone, and the dataset without it. -/
def takeGraph (d : Dataset) (name : GraphName) : Dataset × Dataset :=
  (ofGraph (d.graph name), d.setGraph name ∅)

end Dataset
end Formulary
