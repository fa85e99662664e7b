import Formulary.Proofs.GroundDelta
import Formulary.Proofs.SchemaFolding

/-!
# Datasets as sets of pairs

A dataset stands for the set of its pairs of a graph name and a triple, and nothing else of it can
be seen (`Dataset.pairs_inj`). Each edit takes pairs out and puts pairs in, and tells what it
changed (`Edit.pairs_run`, `Edit.reports_run`). Below that, an edit is a loop of small steps on the
entries, in which a graph is dropped by hand once its last triple goes (`Edit.graphs_run`); entries
written in this way are never empty, so that they are those of a dataset (`Entries.written_iff`).
-/

namespace Formulary
open Std

/-! ## Pairs -/

namespace Dataset

variable {d e : Dataset} {name other : GraphName} {g : Graph} {t : Triple}

/-- The triples of all graphs, each with the name of its graph. -/
def pairs (d : Dataset) : Set (GraphName × Triple) := {p | p.2 ∈ d.graph p.1}

theorem mem_pairs : (name, t) ∈ d.pairs ↔ t ∈ d.graph name := Iff.rfl

/-- Datasets with the same pairs are the same value. -/
theorem pairs_inj : d.pairs = e.pairs ↔ d = e := by
  constructor
  · intro same
    refine ext_graph fun name => SortedSet.ext_mem fun t => ?_
    rw [← mem_pairs, same, mem_pairs]
  · exact congrArg pairs

theorem pairs_ofGraph : (ofGraph g).pairs = {p | p.1 = none ∧ p.2 ∈ g} := by
  ext ⟨name, t⟩
  rw [mem_pairs, graph_ofGraph]
  split <;> simp [*]

theorem exists_pair_iff : (∃ t, (name, t) ∈ d.pairs) ↔ name ∈ d.names := by
  rw [mem_names]
  constructor
  · rintro ⟨t, member⟩ empty
    exact SortedSet.not_mem_empty (empty ▸ mem_pairs.mp member)
  · intro occupied
    by_contra none
    exact occupied (SortedSet.ext_mem fun t =>
      iff_of_false (fun member => none ⟨t, member⟩) SortedSet.not_mem_empty)

/-- The pairs one by one, graph by graph. -/
def pairList (d : Dataset) : List (GraphName × Triple) :=
  d.graphs.entries.flatMap fun entry => entry.2.toList.map (entry.1, ·)

theorem mem_pairList {p : GraphName × Triple} : p ∈ d.pairList ↔ p ∈ d.pairs := by
  obtain ⟨name, t⟩ := p
  simp only [pairList, List.mem_flatMap, List.mem_map, Prod.mk.injEq, mem_pairs]
  constructor
  · rintro ⟨entry, there, s, member, rfl, rfl⟩
    rw [graph, SortedMap.get?_eq_some_iff.mpr there]
    exact member
  · intro member
    rw [graph] at member
    cases held : d.graphs.get? name with
    | none => simp [held] at member
    | some g =>
      rw [held] at member
      exact ⟨(name, g), SortedMap.get?_eq_some_iff.mp held, t, member, rfl, rfl⟩

theorem nodup_pairList (d : Dataset) : d.pairList.Nodup := by
  refine List.nodup_flatMap.mpr ⟨fun entry _ => ?_, ?_⟩
  · exact (SortedSet.nodup_toList _).map fun s t same => (Prod.mk.inj same).2
  · have apart : d.graphs.entries.Pairwise fun one two => one.1 ≠ two.1 :=
      List.pairwise_map.mp (SortedMap.nodup_keys d.graphs)
    refine apart.imp fun {one two} apart p here there => ?_
    obtain ⟨s, -, rfl⟩ := List.mem_map.mp here
    obtain ⟨t, -, same⟩ := List.mem_map.mp there
    exact apart (Prod.mk.inj same).1.symm

theorem size_eq_length : d.size = d.pairList.length := by
  simp [size, triples, pairList, SortedMap.values, List.length_flatMap, Function.comp_def]

theorem size_eq : d.size = d.pairs.ncard :=
  size_eq_length.trans (length_eq_ncard d.nodup_pairList fun _ => mem_pairList)

theorem isEmpty_iff : d.isEmpty ↔ d.size = 0 := by
  have emptied : d.isEmpty ↔ d.names = [] := by
    rw [isEmpty, SortedMap.isEmpty, List.isEmpty_iff, names, SortedMap.keys, List.map_eq_nil_iff]
  have unlisted : d.size = 0 ↔ ∀ p, p ∉ d.pairs := by
    simp only [size_eq_length, List.length_eq_zero_iff, List.eq_nil_iff_forall_not_mem,
      mem_pairList]
  rw [emptied, unlisted, List.eq_nil_iff_forall_not_mem]
  constructor
  · exact fun empty p member => empty p.1 (exists_pair_iff.mp ⟨p.2, member⟩)
  · intro empty name listed
    obtain ⟨t, member⟩ := exists_pair_iff.mpr listed
    exact empty _ member

end Dataset

/-! ## Entries written by hand -/

/-- Graphs by name, with no promise that none of them is empty. -/
abbrev Entries := SortedMap GraphName Graph

namespace Entries

inductive Step where
  | insert (name : GraphName) (t : Triple)
  | remove (name : GraphName) (t : Triple)
  | drop (name : GraphName)

/-- Adding makes the graph if it is missing; taking out drops the graph if nothing is left of it. -/
def step (m : Entries) : Step → Entries
  | .insert name t => m.upsert name fun held => (held.getD ∅).insert t
  | .remove name t =>
    match m.get? name with
    | some g => if g.erase t = ∅ then m.erase name else m.insert name (g.erase t)
    | none => m
  | .drop name => m.erase name

/-- A graph as the only one, in the place of the default graph. -/
def detached (m : Entries) (name : GraphName) : Entries :=
  match m.get? name with
  | some g => (∅ : Entries).insert none g
  | none => ∅

/-- What small steps and detaching make of nothing. -/
inductive Written : Entries → Prop where
  | empty : Written ∅
  | step {m : Entries} (step : Step) : Written m → Written (Entries.step m step)
  | detached {m : Entries} (name : GraphName) : Written m → Written (Entries.detached m name)

end Entries

namespace Dataset

variable {d e : Dataset} {name : GraphName} {t : Triple}

theorem graphs_insertIn :
    (d.insertIn name t).2.graphs = Entries.step d.graphs (.insert name t) := by
  have occupied : (d.graph name).insert t ≠ ∅ := fun empty =>
    SortedSet.not_mem_empty (empty ▸ SortedSet.mem_insert.mpr (.inl rfl))
  rw [insertIn, setGraph, dif_neg occupied]
  rfl

theorem graphs_removeIn :
    (d.removeIn name t).2.graphs = Entries.step d.graphs (.remove name t) := by
  rw [removeIn, graph, Entries.step]
  cases held : d.graphs.get? name with
  | some g =>
    simp only [Option.getD_some, setGraph]
    split <;> rfl
  | none =>
    have empty : (∅ : Graph).erase t = ∅ := rfl
    simp only [Option.getD_none, setGraph, dif_pos empty]
    refine SortedMap.ext_get? fun other => ?_
    rw [SortedMap.get?_erase]
    split
    next same => rw [same, held]
    next => rfl

theorem graphs_takeGraph_snd :
    (d.takeGraph name).2.graphs = Entries.step d.graphs (.drop name) := by
  rw [takeGraph, setGraph, dif_pos rfl]
  rfl

theorem graphs_takeGraph_fst : (d.takeGraph name).1.graphs = Entries.detached d.graphs name := by
  rw [takeGraph, ofGraph, graph, Entries.detached]
  cases held : d.graphs.get? name with
  | some g =>
    have occupied : g ≠ ∅ := d.occupied (name, g) (SortedMap.get?_eq_some_iff.mp held)
    rw [Option.getD_some, setGraph, dif_neg occupied]
    rfl
  | none => rfl

/-- Adding triples one after another. -/
theorem graphs_insertMany {triples : List Triple} : (d.insertMany name triples).graphs =
    (triples.map (.insert name)).foldl Entries.step d.graphs := by
  induction triples generalizing d with
  | nil => rw [insertMany_nil, List.map_nil, List.foldl_nil]
  | cons t rest ih => rw [insertMany_cons, ih, graphs_insertIn, List.map_cons, List.foldl_cons]

/-- Taking triples out one after another. -/
theorem graphs_diff {triples : List Triple} :
    (d.setGraph name ((d.graph name).diff (.ofList triples))).graphs =
      (triples.map (.remove name)).foldl Entries.step d.graphs := by
  induction triples generalizing d with
  | nil =>
    rw [List.map_nil, List.foldl_nil]
    refine congrArg graphs (ext_graph fun other => ?_)
    rw [graph_setGraph]
    split
    next same =>
      subst same
      exact SortedSet.ext_mem fun t => by simp
    next => rfl
  | cons t rest ih =>
    rw [List.map_cons, List.foldl_cons, ← graphs_removeIn, ← ih]
    refine congrArg graphs (ext_graph fun other => ?_)
    simp only [removeIn, graph_setGraph, if_pos]
    split
    next => exact SortedSet.ext_mem fun s => by simp [and_assoc]
    next => rfl

/-- The dataset of a list of pairs. -/
def ofPairs (list : List (GraphName × Triple)) : Dataset :=
  list.foldr (fun p made => (made.insertIn p.1 p.2).2) ∅

theorem mem_pairs_ofPairs {list : List (GraphName × Triple)} {p : GraphName × Triple} :
    p ∈ (ofPairs list).pairs ↔ p ∈ list := by
  induction list with
  | nil => simp [ofPairs, pairs]
  | cons first rest ih =>
    have next : ofPairs (first :: rest) = ((ofPairs rest).insertIn first.1 first.2).2 := rfl
    obtain ⟨name, t⟩ := p
    rw [mem_pairs] at ih ⊢
    rw [next, insertIn, graph_setGraph, List.mem_cons, Prod.ext_iff, ← ih]
    split
    next same => simp [same]
    next apart => simp [apart]

theorem ofPairs_pairList : ofPairs d.pairList = d :=
  pairs_inj.mp (Set.ext fun _ => mem_pairs_ofPairs.trans mem_pairList)

theorem written_ofPairs (list : List (GraphName × Triple)) :
    Entries.Written (ofPairs list).graphs := by
  induction list with
  | nil => exact .empty
  | cons first rest ih =>
    rw [ofPairs, List.foldr_cons, graphs_insertIn]
    exact .step _ ih

/-- Every dataset is written by adding its triples. -/
theorem written_graphs (d : Dataset) : Entries.Written d.graphs :=
  ofPairs_pairList (d := d) ▸ written_ofPairs d.pairList

theorem deleteWhere_nil {group : Group} : (d.deleteWhere [] group).2 = d := by
  refine ext_graph fun name => ?_
  by_cases default : name = none
  · subst default
    refine SortedSet.ext_mem fun t => ?_
    rw [mem_graph_deleteWhere, construct, mem_instantiateAll]
    simp
  · exact graph_deleteWhere_of_ne default

theorem graphs_deleteWhere {template : List TriplePattern} {group : Group} :
    (d.deleteWhere template group).2.graphs =
      ((d.construct template group).toList.map (.remove none)).foldl Entries.step d.graphs := by
  rw [← graphs_diff, deleteWhere]
  refine congrArg (fun g => (d.setGraph none g).graphs) (SortedSet.ext_mem fun t => ?_)
  simp

end Dataset

/-- What is written by hand holds no empty graph, and anything else without one can be written. -/
theorem Entries.written_iff {m : Entries} : m.Written ↔ ∀ entry ∈ m.entries, entry.2 ≠ ∅ := by
  constructor
  · intro written
    have exists_dataset : ∃ d : Dataset, d.graphs = m := by
      induction written with
      | empty => exact ⟨∅, rfl⟩
      | step step _ ih =>
        obtain ⟨d, rfl⟩ := ih
        cases step with
        | insert name t => exact ⟨_, Dataset.graphs_insertIn⟩
        | remove name t => exact ⟨_, Dataset.graphs_removeIn⟩
        | drop name => exact ⟨_, Dataset.graphs_takeGraph_snd⟩
      | detached name _ ih =>
        obtain ⟨d, rfl⟩ := ih
        exact ⟨_, Dataset.graphs_takeGraph_fst⟩
    obtain ⟨d, rfl⟩ := exists_dataset
    exact d.occupied
  · exact fun occupied => (Dataset.mk m occupied).written_graphs

/-! ## Edits -/

namespace Dataset

/-- What may be done to a dataset. -/
inductive Edit where
  | insert (name : GraphName) (t : Triple)
  | remove (name : GraphName) (t : Triple)
  | removeMatching (name : GraphName) (s : Selector)
  | extend (triples : List Triple)
  | insertScoped (other : Dataset) (name : GraphName) (scope : String)
  | takeGraph (name : GraphName)
  | deleteWhere (template : List TriplePattern) (group : Group)
  | apply (delta : Delta)

/-- What an edit tells of what it changed. -/
inductive Report where
  | changed (did : Bool)
  | count (number : Nat)
  | detached (taken : Dataset)
  | removed (triples : Graph)
  | silent

namespace Edit

/-- Does an edit: what it tells, and the dataset afterwards. -/
def run (d : Dataset) : Edit → Report × Dataset
  | .insert name t => (.changed (d.insertIn name t).1, (d.insertIn name t).2)
  | .remove name t => (.changed (d.removeIn name t).1, (d.removeIn name t).2)
  | .removeMatching name s => (.count (d.removeMatchingIn name s).1, (d.removeMatchingIn name s).2)
  | .extend triples => (.silent, d.insertMany none triples)
  | .insertScoped other name scope => (.silent, d.insertScoped other name scope)
  | .takeGraph name => (.detached (d.takeGraph name).1, (d.takeGraph name).2)
  | .deleteWhere template group =>
    (.removed (d.deleteWhere template group).1, (d.deleteWhere template group).2)
  | .apply delta => (.silent, delta.apply d)

/-- The only graph that an edit may change. -/
def place : Edit → GraphName
  | .insert name _ | .remove name _ | .removeMatching name _ | .insertScoped _ name _
  | .takeGraph name => name
  | .extend _ | .deleteWhere _ _ | .apply _ => none

/-- The default graph without the ground removals of a delta, where its patterns are tried. -/
def remainder (d : Dataset) (delta : Delta) : Graph :=
  (d.graph none).diff (.ofList delta.groundRemovals)

/-- The triples that an edit takes out of its graph if they are there. -/
def gone (d : Dataset) : Edit → Set Triple
  | .insert _ _ | .extend _ | .insertScoped _ _ _ => ∅
  | .remove _ t => {t}
  | .removeMatching _ s => {t | s.admits t}
  | .takeGraph _ => Set.univ
  | .deleteWhere template group => {t | t ∈ d.construct template group}
  | .apply delta => {t | t ∈ delta.groundRemovals ∨ t.isValid ∧ delta.Finds (remainder d delta) t}

/-- The triples that an edit puts into its graph. -/
def new : Edit → Set Triple
  | .insert _ t => {t}
  | .extend triples => {t | t ∈ triples}
  | .insertScoped other _ scope => {t | ∃ p ∈ other.pairs, p.2.inScope scope = t}
  | .apply delta => {t | t ∈ delta.added}
  | .remove _ _ | .removeMatching _ _ | .takeGraph _ | .deleteWhere _ _ => ∅

/-- The pairs that an edit takes out. -/
def taken (d : Dataset) (edit : Edit) : Set (GraphName × Triple) :=
  {p ∈ d.pairs | p.1 = edit.place ∧ p.2 ∈ edit.gone d}

/-- The pairs that an edit puts in. -/
def given (edit : Edit) : Set (GraphName × Triple) := {p | p.1 = edit.place ∧ p.2 ∈ edit.new}

/-- The report that belongs to an edit, and says what it changed. -/
def Reports (d : Dataset) : Edit → Report → Prop
  | .insert name t, .changed did => did = true ↔ (name, t) ∉ d.pairs
  | .remove name t, .changed did => did = true ↔ (name, t) ∈ d.pairs
  | .removeMatching name s, .count number => number = (taken d (.removeMatching name s)).ncard
  | .takeGraph name, .detached other => other.pairs = {p | p.1 = none ∧ (name, p.2) ∈ d.pairs}
  | .deleteWhere template group, .removed triples =>
    ∀ t, t ∈ triples ↔ (none, t) ∈ taken d (.deleteWhere template group)
  | .extend _, .silent | .insertScoped _ _ _, .silent | .apply _, .silent => True
  | _, _ => False

/-- The small steps that an edit takes, one triple at a time. -/
def steps (d : Dataset) : Edit → List Entries.Step
  | .insert name t => [.insert name t]
  | .remove name t => [.remove name t]
  | .removeMatching name s => (d.matchingIn name s).map (.remove name)
  | .extend triples => triples.map (.insert none)
  | .insertScoped other name scope => (other.triples.map (·.inScope scope)).map (.insert name)
  | .takeGraph name => [.drop name]
  | .deleteWhere template group => (d.construct template group).toList.map (.remove none)
  | .apply delta =>
    let rest := d.setGraph none (remainder d delta)
    let found := rest.construct delta.patterns { patterns := delta.patterns }
    delta.groundRemovals.map (.remove none) ++ found.toList.map (.remove none) ++
      delta.added.toList.map (.insert none)

variable {d : Dataset} {name : GraphName} {t : Triple}

theorem mem_graph_run (edit : Edit) : t ∈ (edit.run d).2.graph edit.place ↔
    t ∈ d.graph edit.place ∧ t ∉ edit.gone d ∨ t ∈ edit.new := by
  cases edit with
  | insert name s =>
    simp [run, place, gone, new, insertIn, graph_setGraph, or_comm]
  | remove name s => simp [run, place, gone, new, removeIn, graph_setGraph]
  | removeMatching name s =>
    simp [run, place, gone, new, removeMatchingIn, graph_setGraph]
  | extend triples => simp [run, place, gone, new, insertMany, graph_setGraph]
  | insertScoped other name scope =>
    simp [run, place, gone, new, mem_graph_insertScoped, pairs]
  | takeGraph name => simp [run, place, gone, new, Dataset.takeGraph, graph_setGraph]
  | deleteWhere template group => simp [run, place, gone, new, mem_graph_deleteWhere]
  | apply delta =>
    simp only [run, place, gone, new, Delta.mem_graph_apply, Set.mem_ofPred_eq, not_or, and_assoc]
    rfl

/-- No other graph is touched. -/
theorem graph_run_of_ne (edit : Edit) (other : name ≠ edit.place) :
    (edit.run d).2.graph name = d.graph name := by
  cases edit with
  | insert | remove | removeMatching | extend | insertScoped | takeGraph =>
    exact graph_setGraph.trans (if_neg other)
  | deleteWhere => exact graph_deleteWhere_of_ne other
  | apply => exact Delta.graph_apply_of_ne other

theorem pairs_run (edit : Edit) : (edit.run d).2.pairs = d.pairs \ edit.taken d ∪ edit.given := by
  ext ⟨name, t⟩
  simp only [mem_pairs, taken, given, Set.mem_union, Set.mem_sdiff, Set.mem_ofPred_eq]
  by_cases here : name = edit.place
  · subst here
    rw [mem_graph_run]
    tauto
  · rw [graph_run_of_ne edit here]
    tauto

theorem reports_run (edit : Edit) : edit.Reports d (edit.run d).1 := by
  cases edit with
  | insert name t => simp [run, Reports, insertIn, pairs]
  | remove name t => simp [run, Reports, removeIn, pairs]
  | removeMatching name s =>
    have distinct : ((d.matchingIn name s).map (name, ·)).Nodup :=
      ((SortedSet.nodup_toList _).filter _).map fun s t same => (Prod.mk.inj same).2
    simp only [run, Reports, removeMatchingIn]
    rw [← length_eq_ncard distinct, List.length_map]
    rintro ⟨other, t⟩
    simp only [taken, place, gone, matchingIn, Set.mem_ofPred_eq, List.mem_map, List.mem_filter,
      SortedSet.mem_toList, Prod.mk.injEq, mem_pairs]
    constructor
    · rintro ⟨_, ⟨member, admitted⟩, rfl, rfl⟩
      exact ⟨member, rfl, admitted⟩
    · rintro ⟨member, rfl, admitted⟩
      exact ⟨t, ⟨member, admitted⟩, rfl, rfl⟩
  | takeGraph name =>
    exact pairs_ofGraph
  | deleteWhere template group =>
    intro t
    simp [Dataset.deleteWhere, taken, place, gone, pairs, and_comm]
  | extend | insertScoped | apply => trivial

/-- An edit is its small steps, which know nothing of empty graphs but what they see. -/
theorem graphs_run (edit : Edit) :
    (edit.run d).2.graphs = (edit.steps d).foldl Entries.step d.graphs := by
  cases edit with
  | insert => exact graphs_insertIn
  | remove => exact graphs_removeIn
  | removeMatching name s =>
    rw [run, steps, ← graphs_diff, removeMatchingIn]
    refine congrArg (fun g => (d.setGraph name g).graphs) (SortedSet.ext_mem fun t => ?_)
    simp [matchingIn]
    tauto
  | extend => exact graphs_insertMany
  | insertScoped => exact graphs_insertMany
  | takeGraph => exact graphs_takeGraph_snd
  | deleteWhere template group => exact graphs_deleteWhere
  | apply delta =>
    have rest : (delta.groundRemovals.map (.remove none)).foldl Entries.step d.graphs =
        (d.setGraph none (remainder d delta)).graphs := graphs_diff.symm
    rw [run, steps, List.foldl_append, List.foldl_append, rest, ← graphs_deleteWhere,
      ← graphs_insertMany, Delta.apply]
    split
    next silent => rw [List.isEmpty_iff.mp silent, deleteWhere_nil]; rfl
    next => rfl

end Edit

/-- A dataset is its set of pairs: it is empty, has a size and names its graphs as this set does,
and no two datasets have the same one. Written from nothing by small steps that drop a graph when
its last triple goes, the entries of graphs hold no empty graph, and every dataset is written so.
Each edit is a loop of such steps; it takes out the pairs and puts in the pairs that it should,
tells what it changed, and touches no graph but one. A merged schema has the folded triples of its
two parts in the default graph and nothing else. -/
theorem represents_pairs :
    (∀ m : Entries, m.Written ↔ ∀ entry ∈ m.entries, entry.2 ≠ ∅) ∧
    ∀ d : Dataset, Entries.Written d.graphs ∧ (d.isEmpty ↔ d.size = 0) ∧ d.size = d.pairs.ncard ∧
      d.names.Nodup ∧ (∀ name, name ∈ d.names ↔ ∃ t, (name, t) ∈ d.pairs) ∧
      (∀ e : Dataset, d = e ↔ d.pairs = e.pairs) ∧
      (∀ edit : Edit, (edit.run d).2.graphs = (edit.steps d).foldl Entries.step d.graphs ∧
        (edit.run d).2.pairs = d.pairs \ edit.taken d ∪ edit.given ∧
        edit.Reports d (edit.run d).1 ∧
        ∀ name, name ≠ edit.place → (edit.run d).2.graph name = d.graph name) ∧
      ∀ config base extension uri, merge config base extension uri = .ok d ↔
        ∃ form, extension.extendedForm uri = .ok form ∧ d.pairs =
          {p | p.1 = none ∧ ∃ s, Kept base extension form uri s ∧ s.folded form uri = p.2} := by
  refine ⟨fun m => Entries.written_iff, fun d =>
    ⟨d.written_graphs, isEmpty_iff, size_eq, ?_, ?_, ?_, ?_, ?_⟩⟩
  · exact SortedMap.nodup_keys d.graphs
  · exact fun name => exists_pair_iff.symm
  · exact fun e => pairs_inj.symm
  · intro edit
    exact ⟨edit.graphs_run, edit.pairs_run, edit.reports_run, fun name => edit.graph_run_of_ne⟩
  · intro config base extension uri
    rw [merge_eq]
    cases declared : extension.extendedForm uri with
    | error failure => simp [Except.map]
    | ok form =>
      have whole := pairs_ofGraph
        (g := (base.loadedWith extension none).folded (extension.graph none) form uri)
      simp only [mem_loadedWith_folded] at whole
      simp only [Except.map, Except.ok.injEq, exists_eq_left', ← whole, pairs_inj]
      exact eq_comm

end Dataset
end Formulary
