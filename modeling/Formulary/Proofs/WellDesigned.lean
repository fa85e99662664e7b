import Formulary.Proofs.SolutionAlgebra

/-!
# Well-designed groups

A group is well designed if its optional groups share variables with the rest of the query only where
something before them has these variables too. What a row brings into an optional group is then bound
there already, so finding the group under that row or on its own comes to the same
(`Group.mem_evaluate_iff_join`).
-/

namespace Formulary
open Std

namespace Group

variable {g : Graph} {patterns : List TriplePattern} {group : Group} {groups : List Group}
  {outside before : List Variable} {seed row : Solution} {v : Variable}

/-- All variables of a group, those of its optional groups included. -/
def allVars (group : Group) : List Variable := group.allPatterns.flatMap (·.vars)

def allVarsOf (groups : List Group) : List Variable := (patternsOf groups).flatMap (·.vars)

theorem allVars_mk : allVars ⟨patterns, groups⟩ = patterns.flatMap (·.vars) ++ allVarsOf groups := by
  rw [allVars, allPatterns, List.flatMap_append, allVarsOf]

theorem allVarsOf_cons : allVarsOf (group :: groups) = group.allVars ++ allVarsOf groups := by
  rw [allVarsOf, patternsOf, List.flatMap_append, allVars, allVarsOf]

mutual

/-- Well designed within a query that has the given variables outside of the group. -/
def WellDesigned (outside : List Variable) : Group → Prop
  | ⟨patterns, optionals⟩ => OptionalsDesigned outside (patterns.flatMap (·.vars)) optionals

/-- A variable that an optional group shares with something later or outside occurs before it. -/
def OptionalsDesigned (outside before : List Variable) : List Group → Prop
  | [] => True
  | group :: rest =>
    (∀ v ∈ group.allVars, v ∈ outside ∨ v ∈ allVarsOf rest → v ∈ before) ∧
      group.WellDesigned (outside ++ before ++ allVarsOf rest) ∧
      OptionalsDesigned outside (before ++ group.allVars) rest

end

/-! ## What solutions bind -/

theorem mem_append_of_leftJoin {left right : Set Solution} {after : List Variable}
    (one : ∀ a ∈ left, ∀ v, a.Binds v → v ∈ before) (two : ∀ b ∈ right, ∀ v, b.Binds v → v ∈ after) :
    ∀ row ∈ leftJoin left right, ∀ v, row.Binds v → v ∈ before ++ after := by
  rintro row found v binds
  obtain ⟨a, here, found⟩ := mem_leftJoin.mp found
  rcases mem_leftJoin_singleton.mp found with ⟨b, there, -, rfl⟩ | ⟨-, rfl⟩
  · rcases Solution.binds_merge.mp binds with known | known
    · exact List.mem_append_left _ (one a here v known)
    · exact List.mem_append_right _ (two b there v known)
  · exact List.mem_append_left _ (one row here v binds)

mutual

theorem mem_allVars_of_binds : ∀ (group : Group), ∀ row ∈ group.solutions g, ∀ v, row.Binds v →
    v ∈ group.allVars
  | ⟨patterns, optionals⟩ => by
    intro row found v binds
    rw [allVars_mk]
    exact mem_append_of_joinOptionals optionals
      (fun a here w bound => List.mem_flatMap.mpr ((here.1 w).mp bound)) row found v binds

theorem mem_append_of_joinOptionals : ∀ (groups : List Group) {before : List Variable}
    {rows : Set Solution}, (∀ a ∈ rows, ∀ v, a.Binds v → v ∈ before) →
    ∀ row ∈ joinOptionals g groups rows, ∀ v, row.Binds v → v ∈ before ++ allVarsOf groups
  | [], _, _, within => fun row found v binds => List.mem_append_left _ (within row found v binds)
  | group :: rest, _, _, within => by
    rw [allVarsOf_cons, ← List.append_assoc]
    exact mem_append_of_joinOptionals rest
      (mem_append_of_leftJoin within (mem_allVars_of_binds group))

end

/-! ## Evaluation -/

/-- Rows found before an optional group, in a query with a seed: they bind nothing but what occurs
before it, and of that everything that the seed binds. -/
structure Found (outside before : List Variable) (seed : Solution) (rows : Set Solution) : Prop where
  seeded : ∀ v, seed.Binds v → v ∈ outside
  within : ∀ a ∈ rows, ∀ v, a.Binds v → v ∈ before
  settled : ∀ v ∈ before, seed.Binds v → ∀ a ∈ rows, a.Binds v

variable {rows : Set Solution}

theorem found_conjunction (seeded : ∀ v, seed.Binds v → v ∈ outside) :
    Found outside (patterns.flatMap (·.vars)) seed (conjunction g patterns) where
  seeded := seeded
  within _ here v binds := List.mem_flatMap.mpr ((here.1 v).mp binds)
  settled v member _ _ here := (here.1 v).mpr (List.mem_flatMap.mp member)

/-- The seed binds nothing of an optional group but what the rows bind already. -/
theorem Found.shared (found : Found outside before seed rows)
    (apart : ∀ v ∈ group.allVars, v ∈ outside → v ∈ before) :
    ∀ a ∈ rows, ∀ b ∈ group.solutions g, ∀ v, seed.Binds v → b.Binds v → a.Binds v :=
  fun a here b there v known binds =>
    found.settled v (apart v (mem_allVars_of_binds group b there v binds) (found.seeded v known)) known
      a here

theorem Found.leftJoin (found : Found outside before seed rows)
    (apart : ∀ v ∈ group.allVars, v ∈ outside → v ∈ before) :
    Found outside (before ++ group.allVars) seed (leftJoin rows (group.solutions g)) where
  seeded := found.seeded
  within := mem_append_of_leftJoin found.within (mem_allVars_of_binds group)
  settled v member known row joined := by
    have early : v ∈ before := (List.mem_append.mp member).elim id fun there =>
      apart v there (found.seeded v known)
    obtain ⟨a, here, joined⟩ := mem_leftJoin.mp joined
    have binds := found.settled v early known a here
    rcases mem_leftJoin_singleton.mp joined with ⟨b, -, -, rfl⟩ | ⟨-, rfl⟩
    · exact Solution.binds_merge.mpr (.inl binds)
    · exact binds

/-- A row of the seed and of rows found before an optional group binds what is outside of it. -/
theorem Found.mem_outside (found : Found outside before seed rows) (here : row ∈ join {seed} rows)
    (binds : row.Binds v) : v ∈ outside ++ before := by
  obtain ⟨a, member, -, rfl⟩ := mem_join_singleton.mp here
  rcases Solution.binds_merge.mp binds with known | known
  · exact List.mem_append_left _ (found.seeded v known)
  · exact List.mem_append_right _ (found.within a member v known)

/-- Trying a group on a row is joining its solutions on the left of that row, where evaluating it under
the row is joining them. -/
theorem mem_orKeep_iff_leftJoin {right : Set Solution}
    (evaluated : ∀ row, row ∈ group.evaluate g seed ↔ row ∈ join {seed} right) :
    row ∈ orKeep seed (group.evaluate g seed) ↔ row ∈ leftJoin {seed} right := by
  rw [mem_orKeep, evaluated, mem_leftJoin_singleton, mem_join_singleton,
    List.eq_nil_iff_forall_not_mem]
  refine or_congr_right (and_congr_left fun _ => ?_)
  simp only [evaluated, mem_join_singleton]
  constructor
  · exact fun nothing b there compatible => nothing _ ⟨b, there, compatible, rfl⟩
  · rintro apart _ ⟨b, there, compatible, -⟩
    exact apart b there compatible

mutual

/-- Evaluating a well-designed group under a seed is joining the seed with the solutions of the
group. -/
theorem mem_evaluate_iff_join : ∀ (group : Group) {outside : List Variable} {seed : Solution},
    group.WellDesigned outside → (∀ v, seed.Binds v → v ∈ outside) →
    ∀ row, row ∈ group.evaluate g seed ↔ row ∈ join {seed} (group.solutions g)
  | ⟨_, optionals⟩, _, _, designed, seeded => by
    rw [evaluate, solutions]
    exact mem_evaluateOptionals_iff_join optionals designed (found_conjunction seeded)
      fun _ => mem_extendAll_iff_join

theorem mem_evaluateOptionals_iff_join : ∀ (groups : List Group) {outside before : List Variable}
    {seed : Solution} {rows : Set Solution} {list : List Solution},
    OptionalsDesigned outside before groups → Found outside before seed rows →
    (∀ row, row ∈ list ↔ row ∈ join {seed} rows) →
    ∀ row, row ∈ evaluateOptionals g groups list ↔ row ∈ join {seed} (joinOptionals g groups rows)
  | [], _, _, _, _, _, _, _, same => same
  | group :: rest, outside, before, seed, rows, list, designed, found, same => by
    obtain ⟨apart, inner, later⟩ := designed
    have apart : ∀ v ∈ group.allVars, v ∈ outside → v ∈ before := fun v there out =>
      apart v there (.inl out)
    refine mem_evaluateOptionals_iff_join rest later (found.leftJoin apart) fun row => ?_
    rw [← leftJoin_join_singleton (found.shared apart), mem_leftJoin, List.mem_flatMap]
    refine exists_congr fun a => ?_
    rw [same]
    refine and_congr_right fun here => mem_orKeep_iff_leftJoin ?_
    exact mem_evaluate_iff_join group inner fun v binds =>
      List.mem_append_left _ (found.mem_outside here binds)

end

/-- Over any graph of a dataset, the rows of a well-designed group are its solutions. -/
theorem mem_selectIn_iff_of_wellDesigned (data : Dataset) (name : GraphName) (group : Group)
    (designed : group.WellDesigned []) :
    ∀ row, row ∈ data.selectIn name group ↔ row ∈ group.solutions (data.graph name) := by
  intro row
  rw [Dataset.selectIn, mem_evaluate_iff_join group designed
    (fun v binds => absurd binds Solution.not_binds_empty), join_unit]

/-- Two nodes that lead to each other, one of them with a label. -/
def ring : Dataset := .ofGraph <| .ofList
  [⟨.iri "a", .iri "next", .iri "b"⟩, ⟨.iri "b", .iri "next", .iri "a"⟩,
    ⟨.iri "b", .iri "label", .plain "B"⟩]

/-- What a node leads to, and for a labelled one everything that is said of it. -/
def reached : Group where
  patterns := [⟨.var ⟨"start"⟩, .oneOrMore (.iri "next"), .var ⟨"node"⟩⟩]
  optionals := [{
    patterns := [⟨.var ⟨"node"⟩, .term (.iri "label"), .var ⟨"label"⟩⟩]
    optionals := [{ patterns := [⟨.var ⟨"node"⟩, .var ⟨"verb"⟩, .var ⟨"value"⟩⟩] }] }]

theorem mem_selectIn_iff_of_wellDesigned_ring : reached.WellDesigned [] ∧
    .ofList [(⟨"start"⟩, .iri "a"), (⟨"node"⟩, .iri "b"), (⟨"label"⟩, .plain "B"),
      (⟨"verb"⟩, .iri "next"), (⟨"value"⟩, .iri "a")] ∈ reached.solutions (ring.graph none) := by
  have designed : reached.WellDesigned [] := by
    simp [reached, WellDesigned, OptionalsDesigned, allVars, allVarsOf, allPatterns, patternsOf,
      TriplePattern.vars, Verb.vars]
  exact ⟨designed, (mem_selectIn_iff_of_wellDesigned ring none reached designed _).mp (by decide)⟩

end Group
end Formulary
