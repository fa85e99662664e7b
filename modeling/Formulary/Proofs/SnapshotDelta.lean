import Formulary.Delta
import Formulary.Proofs.BlankScopes
import Formulary.Proofs.IndependentOptionals

/-!
# Deltas between snapshots

What a delta between two snapshots does to the triples of the old one. The removed triples with blank
nodes become one conjunctive pattern with variables in place of these nodes, and a variable matches
any term: the pattern may find triples without blank nodes that both snapshots have, and these are
lost. Apart from them the ground triples of the new snapshot are reached
(`Change.mem_apply_iff_of_ground`).
-/

namespace Formulary
open Std

namespace Dataset

variable {d : Dataset} {t : Triple}

/-- Simple patterns that are their own template make what they find, as far as it is valid. -/
theorem mem_construct_self {patterns : List TriplePattern} (simple : ∀ p ∈ patterns, p.verb.IsSimple) :
    t ∈ d.construct patterns { patterns } ↔ t.isValid ∧ ∃ σ : Valuation,
      (∀ p ∈ patterns, p.image σ ∈ d.graph none) ∧ ∃ p ∈ patterns, p.image σ = t := by
  have made : ∀ (σ : Valuation), ∀ p ∈ patterns,
      p.instantiate? (Solution.assign ∅ (Group.vars { patterns }) σ) =
        if (p.image σ).isValid then some (p.image σ) else none := by
    intro σ p pattern
    refine TriplePattern.instantiate?_of_bound (simple p pattern) fun v there => ?_
    rw [Solution.get?_assign, if_pos (Group.vars_of_mem pattern there)]
  rw [construct, mem_instantiateAll]
  constructor
  · rintro ⟨row, found, p, pattern, instantiated⟩
    obtain ⟨σ, -, holds, rfl⟩ := (Group.mem_evaluate_plain rfl).mp found
    rw [made σ p pattern, Option.ite_none_right_eq_some, Option.some.injEq] at instantiated
    obtain ⟨valid, rfl⟩ := instantiated
    exact ⟨valid, σ, fun q other => (TriplePattern.holds_iff (simple q other)).mp (holds q other),
      p, pattern, rfl⟩
  · rintro ⟨valid, σ, holds, p, pattern, rfl⟩
    refine ⟨_, (Group.mem_evaluate_plain rfl).mpr ⟨σ, Solution.agrees_empty, fun q other => ?_, rfl⟩,
      p, pattern, ?_⟩
    · exact (TriplePattern.holds_iff (simple q other)).mpr (holds q other)
    · rw [made σ p pattern, if_pos valid]

end Dataset

namespace Delta

variable {d : Delta} {old new data : Dataset} {t : Triple}

theorem mem_removed_between : t ∈ (between old new).removed ↔ t ∈ old.union ∧ t ∉ new.union :=
  SortedSet.mem_diff

theorem mem_added_between : t ∈ (between old new).added ↔ t ∈ new.union ∧ t ∉ old.union :=
  SortedSet.mem_diff

theorem mem_groundRemovals : t ∈ d.groundRemovals ↔ t ∈ d.removed ∧ t.hasBlank = false := by
  simp [groundRemovals, SortedSet.mem_toList]

theorem mem_blankRemovals : t ∈ d.blankRemovals ↔ t ∈ d.removed ∧ t.hasBlank = true := by
  simp [blankRemovals, SortedSet.mem_toList]

/-- The removal patterns find a triple in a graph: under some valuation all of them hold there, and
one of them is the triple. -/
def Finds (d : Delta) (g : Graph) (t : Triple) : Prop :=
  ∃ σ : Valuation, (∀ b ∈ d.blankRemovals, (patternOf b).image σ ∈ g) ∧
    ∃ b ∈ d.blankRemovals, (patternOf b).image σ = t

theorem mem_construct_patterns : t ∈ data.construct d.patterns { patterns := d.patterns } ↔
    t.isValid ∧ d.Finds (data.graph none) t := by
  have simple : ∀ p ∈ d.patterns, p.verb.IsSimple := by
    intro p pattern
    obtain ⟨b, -, rfl⟩ := List.mem_map.mp pattern
    exact trivial
  rw [Dataset.mem_construct_self simple, Finds]
  simp only [patterns, List.mem_map, forall_exists_index, and_imp, forall_apply_eq_imp_iff₂,
    exists_exists_and_eq_and]

/-- What a delta leaves and adds: the ground removals go first, then what the patterns find among the
rest. -/
theorem mem_graph_apply : t ∈ (d.apply data).graph none ↔
    (t ∈ data.graph none ∧ t ∉ d.groundRemovals) ∧
        ¬ (t.isValid ∧ d.Finds ((data.graph none).diff (.ofList d.groundRemovals)) t) ∨
      t ∈ d.added := by
  let rest := data.setGraph none ((data.graph none).diff (.ofList d.groundRemovals))
  have graph_rest : rest.graph none = (data.graph none).diff (.ofList d.groundRemovals) := by
    rw [Dataset.graph_setGraph, if_pos rfl]
  have deleted : (if d.patterns.isEmpty then rest
      else (rest.deleteWhere d.patterns { patterns := d.patterns }).2).graph none =
      (rest.deleteWhere d.patterns { patterns := d.patterns }).2.graph none := by
    by_cases empty : d.patterns.isEmpty
    · refine SortedSet.ext_mem fun t => ?_
      rw [if_pos empty, Dataset.mem_graph_deleteWhere, Dataset.construct, mem_instantiateAll,
        List.isEmpty_iff.mp empty]
      simp
    · rw [if_neg empty]
  rw [apply, Dataset.insertMany, Dataset.graph_setGraph, if_pos rfl, SortedSet.mem_insertMany, deleted,
    Dataset.mem_graph_deleteWhere, mem_construct_patterns, graph_rest, SortedSet.mem_diff,
    SortedSet.mem_ofList, SortedSet.mem_toList]

end Delta
/-! ## Snapshots of documents -/

section
variable {format : Format} {old new text scope : String} {target : Term} {delta : Delta}
  {statement : String} {before after snapshot : Dataset} {t : Triple}

theorem mem_union_scopedSnapshot (made : scopedSnapshot format text scope = .ok snapshot)
    (read : Document.read format text = .ok before) :
    t ∈ snapshot.union ↔ ∃ u ∈ before.graph none, u.inScope scope = t := by
  obtain ⟨found, rfl⟩ : ∃ found, before = .ofGraph found := by
    rw [Document.read] at read
    split at read
    · exact ⟨_, (Except.ok.inj read).symm⟩
    · exact absurd read nofun
  rw [scopedSnapshot, read] at made
  obtain rfl := Except.ok.inj made
  have inside : ∀ u, u ∈ (Dataset.ofGraph found).triples ↔ u ∈ found := fun u => by
    rw [Dataset.mem_triples, ← Dataset.mem_union, Dataset.mem_union_ofGraph]
  have snapshot : ∀ triples, (∅ : Dataset).insertMany none triples = .ofGraph (.ofList triples) :=
    fun _ => rfl
  rw [Dataset.insertScoped, snapshot, Dataset.mem_union_ofGraph, SortedSet.mem_ofList, List.mem_map]
  simp only [inside, Dataset.graph_ofGraph, if_true]

theorem scopedSnapshot_of_read (read : Document.read format text = .ok before) :
    scopedSnapshot format text scope = .ok ((∅ : Dataset).insertScoped before .none scope) := by
  rw [scopedSnapshot, read]
  rfl

/-- The delta holds the differences of two graphs, the blank nodes of each in a scope of its own. -/
structure Compares (delta : Delta) (before after : Graph) : Prop where
  removed : ∀ t, t ∈ delta.removed ↔
    (∃ u ∈ before, u.inScope "old_" = t) ∧ ¬ ∃ u ∈ after, u.inScope "new_" = t
  added : ∀ t, t ∈ delta.added ↔
    (∃ u ∈ after, u.inScope "new_" = t) ∧ ¬ ∃ u ∈ before, u.inScope "old_" = t

/-- Documents with different texts are compared, and it is an update unless nothing differs. -/
theorem Change.exists_compares (target : Term) (different : old ≠ new)
    (readOld : Document.read format old = .ok before)
    (readNew : Document.read format new = .ok after) :
    ∃ delta, Compares delta (before.graph Option.none) (after.graph Option.none) ∧
      Change.between format old new target =
        .ok (if delta.isEmpty then .none else .update delta (delta.updateText target)) := by
  obtain ⟨scopedOld, madeOld⟩ : ∃ snapshot, scopedSnapshot format old "old_" = .ok snapshot :=
    ⟨_, scopedSnapshot_of_read readOld⟩
  obtain ⟨scopedNew, madeNew⟩ : ∃ snapshot, scopedSnapshot format new "new_" = .ok snapshot :=
    ⟨_, scopedSnapshot_of_read readNew⟩
  refine ⟨.between scopedOld scopedNew, ⟨fun t => ?_, fun t => ?_⟩, ?_⟩
  · rw [Delta.mem_removed_between, mem_union_scopedSnapshot madeOld readOld,
      mem_union_scopedSnapshot madeNew readNew]
  · rw [Delta.mem_added_between, mem_union_scopedSnapshot madeOld readOld,
      mem_union_scopedSnapshot madeNew readNew]
  · rw [between, if_neg different, madeOld, madeNew]
    rfl

/-- Different documents, the old one with a blank node, come to an update. -/
theorem Change.exists_update (different : old ≠ new) (readOld : Document.read format old = .ok before)
    (readNew : Document.read format new = .ok after) {b : Triple}
    (member : b ∈ before.graph Option.none) (blank : b.hasBlank) :
    ∃ delta statement, Change.between format old new target = .ok (.update delta statement) := by
  obtain ⟨delta, compares, changes⟩ := exists_compares target different readOld readNew
  have removed : b.inScope "old_" ∈ delta.removed := by
    rw [compares.removed, ← Graph.own_iff scopesApart_snapshots]
    exact .inr ⟨b, member, blank, rfl⟩
  have more : delta.isEmpty = false := by
    rw [Delta.isEmpty, Bool.and_eq_false_iff]
    exact .inl (List.isEmpty_eq_false_iff.mpr (List.ne_nil_of_mem removed))
  rw [if_neg (by simp [more])] at changes
  exact ⟨delta, _, changes⟩

/-- An update is the difference of the two documents. -/
theorem Change.compares (changes : Change.between format old new target = .ok (.update delta statement))
    (readOld : Document.read format old = .ok before) (readNew : Document.read format new = .ok after) :
    Compares delta (before.graph Option.none) (after.graph Option.none) := by
  by_cases same : old = new
  · rw [between, if_pos same, readOld] at changes
    exact absurd (Except.ok.inj changes) nofun
  · obtain ⟨found, compares, outcome⟩ := exists_compares target same readOld readNew
    rw [outcome] at changes
    by_cases empty : found.isEmpty
    · rw [if_pos empty] at changes
      exact absurd (Except.ok.inj changes) nofun
    · rw [if_neg empty] at changes
      exact (Change.update.inj (Except.ok.inj changes)).1 ▸ compares

end

/-- A triple that may be taken for one with a blank node: the patterns of the old snapshot match as a
whole, within the triples that are not removed as they stand, and one of them matches this triple. -/
def Overmatched (before after : Graph) (t : Triple) : Prop :=
  t.isValid ∧ ∃ σ : Valuation,
    (∀ b ∈ before, b.hasBlank → (Delta.patternOf (b.inScope "old_")).image σ ∈ before ∧
      ((Delta.patternOf (b.inScope "old_")).image σ ∉ after →
        ((Delta.patternOf (b.inScope "old_")).image σ).hasBlank)) ∧
    ∃ b ∈ before, b.hasBlank ∧ (Delta.patternOf (b.inScope "old_")).image σ = t

variable {delta : Delta} {before after : Graph} {t : Triple}

theorem Overmatched.mem (overmatched : Overmatched before after t) : t ∈ before := by
  obtain ⟨-, σ, holds, b, member, blank, rfl⟩ := overmatched
  exact (holds b member blank).1

namespace Compares

theorem mem_removed_iff (compares : Compares delta before after) (t : Triple) :
    t ∈ delta.removed ↔ before.Own after "old_" t :=
  (compares.removed t).trans (Graph.own_iff scopesApart_snapshots).symm

theorem mem_added_iff (compares : Compares delta before after) (t : Triple) :
    t ∈ delta.added ↔ after.Own before "new_" t :=
  (compares.added t).trans (Graph.own_iff scopesApart_snapshots.symm).symm

theorem mem_groundRemovals (compares : Compares delta before after) :
    t ∈ delta.groundRemovals ↔ t.hasBlank = false ∧ t ∈ before ∧ t ∉ after := by
  rw [Delta.mem_groundRemovals, compares.mem_removed_iff, and_comm]
  exact and_congr_right fun ground => Graph.own_of_ground ground

theorem mem_added (compares : Compares delta before after) (ground : t.hasBlank = false) :
    t ∈ delta.added ↔ t ∈ after ∧ t ∉ before := by
  rw [compares.mem_added_iff, Graph.own_of_ground ground]

/-- Every triple with a blank node counts as removed, since no other one is in its scope. -/
theorem mem_blankRemovals (compares : Compares delta before after) :
    t ∈ delta.blankRemovals ↔ ∃ b ∈ before, b.hasBlank ∧ b.inScope "old_" = t := by
  rw [Delta.mem_blankRemovals, compares.mem_removed_iff]
  constructor
  · rintro ⟨own, blank⟩
    exact (Graph.own_of_blank blank).mp own
  · rintro ⟨b, member, blank, rfl⟩
    exact ⟨.inr ⟨b, member, blank, rfl⟩, Triple.hasBlank_inScope.trans blank⟩

theorem mem_rest (compares : Compares delta before after) :
    t ∈ before.diff (.ofList delta.groundRemovals) ↔ t ∈ before ∧ (t ∉ after → t.hasBlank) := by
  rw [SortedSet.mem_diff, SortedSet.mem_ofList, compares.mem_groundRemovals]
  cases t.hasBlank <;> simp; tauto

theorem finds_iff (compares : Compares delta before after) :
    t.isValid ∧ delta.Finds (before.diff (.ofList delta.groundRemovals)) t ↔
      Overmatched before after t := by
  simp only [Delta.Finds, Overmatched, compares.mem_blankRemovals, compares.mem_rest]
  refine and_congr_right fun _ => exists_congr fun σ => and_congr ⟨?_, ?_⟩ ⟨?_, ?_⟩
  · exact fun holds b member blank => holds _ ⟨b, member, blank, rfl⟩
  · rintro holds _ ⟨b, member, blank, rfl⟩
    exact holds b member blank
  · rintro ⟨_, ⟨b, member, blank, rfl⟩, found⟩
    exact ⟨b, member, blank, found⟩
  · rintro ⟨b, member, blank, found⟩
    exact ⟨_, ⟨b, member, blank, rfl⟩, found⟩

/-- Of the ground triples of the new graph, the delta misses those that may be taken for triples with
blank nodes. -/
theorem mem_graph_apply (compares : Compares delta before after) {data : Dataset}
    (start : data.graph none = before) (ground : t.hasBlank = false) :
    t ∈ (delta.apply data).graph none ↔ t ∈ after ∧ ¬ Overmatched before after t := by
  have known : Overmatched before after t → t ∈ before := Overmatched.mem
  rw [Delta.mem_graph_apply, start, compares.finds_iff, compares.mem_groundRemovals,
    compares.mem_added ground, ground]
  tauto

end Compares

/-! ### Two pairs of documents -/

/-- A document with one ground triple. -/
def groundText : String := "<http://ex.org/s> <http://ex.org/p> \"v\" .\n"

def groundTriple : Triple := ⟨.iri "http://ex.org/s", .iri "http://ex.org/p", .plain "v"⟩

/-- The document with a triple about a blank node before the ground one. -/
def mixedText (predicate : String) : String := "_:x <" ++ predicate ++ "> \"v\" .\n" ++ groundText

def mixedTriples (predicate : String) : List Triple :=
  [⟨.blank "x", .iri predicate, .plain "v"⟩, groundTriple]

theorem read_groundText :
    Document.read .nTriples groundText = .ok (.ofGraph (.ofList [groundTriple])) := rfl

theorem mem_groundText {t : Triple} :
    t ∈ (Dataset.ofGraph (.ofList [groundTriple])).graph none ↔ t = groundTriple := by
  rw [Dataset.graph_ofGraph, if_pos rfl, SortedSet.mem_ofList, List.mem_singleton]

theorem mem_mixedText {predicate : String} {t : Triple} :
    t ∈ (Dataset.ofGraph (.ofList (mixedTriples predicate))).graph none ↔
      t = ⟨.blank "x", .iri predicate, .plain "v"⟩ ∨ t = groundTriple := by
  rw [Dataset.graph_ofGraph, if_pos rfl, SortedSet.mem_ofList, mixedTriples, List.mem_cons,
    List.mem_singleton]

/-! ### What is reached -/

/-- A delta between snapshots reaches the ground triples of the new one but for those that may be
taken for triples with blank nodes; it reaches all of them exactly if there are none of these. -/
theorem mem_apply_iff_of_ground {format : Format} {old new : String} {target : Term}
    {statement : String} {before after : Dataset}
    (changes : Change.between format old new target = .ok (.update delta statement))
    (readOld : Document.read format old = .ok before) (readNew : Document.read format new = .ok after) :
    (∀ t, t.hasBlank = false → (t ∈ (delta.apply before).graph none ↔
      t ∈ after.graph none ∧ ¬ Overmatched (before.graph none) (after.graph none) t)) ∧
    ((∀ t, t.hasBlank = false → (t ∈ (delta.apply before).graph none ↔ t ∈ after.graph none)) ↔
      ∀ t, t.hasBlank = false → t ∈ before.graph none → t ∈ after.graph none →
        ¬ Overmatched (before.graph none) (after.graph none) t) := by
  have compares := Change.compares changes readOld readNew
  have reached : ∀ t, t.hasBlank = false → (t ∈ (delta.apply before).graph none ↔
      t ∈ after.graph none ∧ ¬ Overmatched (before.graph none) (after.graph none) t) :=
    fun t ground => compares.mem_graph_apply rfl ground
  refine ⟨reached, fun all t ground _ there => ?_, fun apart t ground => ?_⟩
  · exact ((reached t ground).mp ((all t ground).mpr there)).2
  · rw [reached t ground, and_iff_left_iff_imp]
    exact fun there overmatched => apart t ground overmatched.mem there overmatched

/-- With another predicate the blank node is not taken for anything else. -/
theorem mem_apply_iff_of_ground_mixedText : ∃ delta statement,
    Change.between .nTriples (mixedText "http://ex.org/q") groundText (.iri "http://ex.org/g") =
      .ok (.update delta statement) ∧
    ∀ t, t.hasBlank = false →
      (t ∈ (delta.apply (.ofGraph (.ofList (mixedTriples "http://ex.org/q")))).graph none ↔
        t = groundTriple) := by
  have readOld : Document.read .nTriples (mixedText "http://ex.org/q") =
      .ok (.ofGraph (.ofList (mixedTriples "http://ex.org/q"))) := rfl
  have different : mixedText "http://ex.org/q" ≠ groundText := by decide
  obtain ⟨delta, statement, changes⟩ : ∃ delta statement, Change.between .nTriples
      (mixedText "http://ex.org/q") groundText (.iri "http://ex.org/g") = .ok (.update delta statement) :=
    Change.exists_update different readOld read_groundText (mem_mixedText.mpr (.inl rfl)) rfl
  refine ⟨delta, statement, changes, fun t ground => ?_⟩
  rw [← mem_groundText]
  refine (mem_apply_iff_of_ground changes readOld read_groundText).2.mpr (fun t _ _ there overmatched => ?_)
    t ground
  obtain ⟨-, σ, -, b, member, blank, found⟩ := overmatched
  rw [mem_groundText.mp there] at found
  rcases mem_mixedText.mp member with rfl | rfl
  · have predicates : Term.iri "http://ex.org/q" = groundTriple.predicate :=
      congrArg Triple.predicate found
    exact absurd predicates (by decide)
  · exact absurd blank (by decide)

/-- A triple that differs from one with a blank node in nothing else is lost, though both documents
have it. -/
theorem shared_triple_lost : ¬ ∀ (format : Format) (old new : String) (target : Term) (delta : Delta)
    (statement : String) (before after : Dataset),
    Change.between format old new target = .ok (.update delta statement) →
    Document.read format old = .ok before → Document.read format new = .ok after →
    ∀ t, t.hasBlank = false → (t ∈ (delta.apply before).graph none ↔ t ∈ after.graph none) := by
  intro reaches
  have readOld : Document.read .nTriples (mixedText "http://ex.org/p") =
      .ok (.ofGraph (.ofList (mixedTriples "http://ex.org/p"))) := rfl
  have different : mixedText "http://ex.org/p" ≠ groundText := by decide
  obtain ⟨delta, statement, changes⟩ : ∃ delta statement, Change.between .nTriples
      (mixedText "http://ex.org/p") groundText (.iri "http://ex.org/g") = .ok (.update delta statement) :=
    Change.exists_update different readOld read_groundText (mem_mixedText.mpr (.inl rfl)) rfl
  have kept := (reaches _ _ _ _ _ _ _ _ changes readOld read_groundText groundTriple rfl).mpr
    (mem_groundText.mpr rfl)
  rw [(Change.compares changes readOld read_groundText).mem_graph_apply rfl rfl] at kept
  -- The variable for the blank node takes the subject of the ground triple.
  refine kept.2 ⟨rfl, fun _ => groundTriple.subject, fun b found blank => ?_, _,
    mem_mixedText.mpr (.inl rfl), rfl, rfl⟩
  rcases mem_mixedText.mp found with rfl | rfl
  · exact ⟨mem_mixedText.mpr (.inr rfl), fun missing => absurd (mem_groundText.mpr rfl) missing⟩
  · exact absurd blank (by decide)

end Formulary
