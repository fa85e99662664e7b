import Formulary.Proofs.Valuation

/-!
# Independent optional groups

Optional groups that share no variable but those of the seed do not affect each other: in every row
each of them is either answered on its own or leaves its variables unbound, and each of its answers
occurs in some row. The patterns make the triples of these answers, and those of which the seed binds
all variables (`Independent.exists_instantiate?_iff_or_bound`). A single optional group is answered
along with the required patterns unless nothing answers both (`Dataset.mem_select_optional`).
-/

namespace Formulary
open Std

namespace Solution

/-- The second row keeps everything that the first one binds. -/
def Extends (row extended : Solution) : Prop :=
  ∀ v t, row.get? v = some t → extended.get? v = some t

theorem Extends.refl (row : Solution) : row.Extends row := fun _ _ bound => bound

theorem Extends.trans {row middle extended : Solution} (first : row.Extends middle)
    (second : middle.Extends extended) : row.Extends extended :=
  fun v t bound => second v t (first v t bound)

theorem Extends.agrees {row extended : Solution} {σ : Valuation} (extend : row.Extends extended)
    (agrees : extended.Agrees σ) : row.Agrees σ := fun v t bound => agrees v t (extend v t bound)

theorem extends_assign {row : Solution} {vs : List Variable} {σ : Valuation} (agrees : row.Agrees σ) :
    row.Extends (row.assign vs σ) := fun _ _ bound => get?_assign_of_bound agrees bound

end Solution

namespace Group

/-- The variables of the required patterns. -/
def vars (group : Group) : List Variable := group.patterns.flatMap (·.vars)

/-- Every required pattern holds. -/
def Matches (g : Graph) (σ : Valuation) (group : Group) : Prop := ∀ p ∈ group.patterns, p.Holds g σ

variable {g : Graph} {group : Group} {groups : List Group} {row extended : Solution}

theorem vars_of_mem {p : TriplePattern} {v : Variable} (member : p ∈ group.patterns)
    (there : v ∈ p.vars) : v ∈ group.vars := List.mem_flatMap.mpr ⟨p, member, there⟩

theorem matches_congr {σ τ : Valuation} (same : ∀ v ∈ group.vars, σ v = τ v)
    (holds : group.Matches g σ) : group.Matches g τ := fun p member =>
  (TriplePattern.holds_congr fun v there => same v (vars_of_mem member there)).mp (holds p member)

theorem mem_evaluateOptionals {rows : List Solution} : extended ∈ evaluateOptionals g groups rows ↔
    ∃ row ∈ rows, extended ∈ evaluateOptionals g groups [row] := by
  induction groups generalizing rows with
  | nil => simp [evaluateOptionals]
  | cons group rest ih =>
    simp only [evaluateOptionals, List.flatMap_cons, List.flatMap_nil, List.append_nil]
    rw [ih]
    constructor
    · rintro ⟨middle, found, later⟩
      obtain ⟨row, member, kept⟩ := List.mem_flatMap.mp found
      exact ⟨row, member, ih.mpr ⟨middle, kept, later⟩⟩
    · rintro ⟨row, member, found⟩
      obtain ⟨middle, kept, later⟩ := ih.mp found
      exact ⟨middle, List.mem_flatMap.mpr ⟨row, member, kept⟩, later⟩

theorem mem_evaluateOptionals_cons : extended ∈ evaluateOptionals g (group :: groups) [row] ↔
    ∃ middle ∈ orKeep row (group.evaluate g row), extended ∈ evaluateOptionals g groups [middle] := by
  rw [evaluateOptionals, List.flatMap_cons, List.flatMap_nil, List.append_nil, mem_evaluateOptionals]

theorem mem_orKeep {extensions : List Solution} : extended ∈ orKeep row extensions ↔
    extended ∈ extensions ∨ extensions = [] ∧ extended = row := by
  cases extensions <;> simp [orKeep]

theorem orKeep_ne_nil (row : Solution) (extensions : List Solution) : orKeep row extensions ≠ [] := by
  cases extensions <;> simp [orKeep]

theorem evaluateOptionals_ne_nil (g : Graph) (groups : List Group) {rows : List Solution}
    (filled : rows ≠ []) : evaluateOptionals g groups rows ≠ [] := by
  induction groups generalizing rows with
  | nil => simpa [evaluateOptionals] using filled
  | cons group rest ih =>
    rw [evaluateOptionals]
    refine ih fun nothing => ?_
    obtain ⟨row, member⟩ := List.exists_mem_of_ne_nil _ filled
    exact orKeep_ne_nil row _ (List.flatMap_eq_nil_iff.mp nothing row member)

/-- A group without optional groups of its own answers by its patterns. -/
theorem mem_evaluate_plain (plain : group.optionals = []) : extended ∈ group.evaluate g row ↔
    row.Extension group.vars (group.Matches g) extended := by
  obtain ⟨patterns, optionals⟩ := group
  subst plain
  rw [evaluate, evaluateOptionals, mem_extendAll]
  simp only [List.mem_singleton, exists_eq_left]
  rfl

/-- What becomes of a row at a plain optional group. -/
theorem mem_orKeep_plain (plain : group.optionals = []) :
    extended ∈ orKeep row (group.evaluate g row) →
      extended = row ∨ row.Extension group.vars (group.Matches g) extended := by
  rw [mem_orKeep, mem_evaluate_plain plain]
  rintro (made | ⟨-, kept⟩)
  · exact .inr made
  · exact .inl kept

end Group

/-- Plain optional groups that share with each other only variables that the seed binds. -/
structure Independent (seed : Solution) (groups : List Group) : Prop where
  plain : ∀ group ∈ groups, group.optionals = []
  apart : groups.Pairwise fun a b => ∀ v ∈ a.vars, v ∈ b.vars → seed.get? v ≠ none

/-- A group is answered in a row on its own, or its variables are bound there as in the seed. -/
def Settled (g : Graph) (seed : Solution) (group : Group) (row : Solution) : Prop :=
  (∀ v ∈ group.vars, row.get? v = seed.get? v) ∨
    ∃ σ, seed.Agrees σ ∧ group.Matches g σ ∧ ∀ v ∈ group.vars, row.get? v = some (σ v)

/-- A row on the way: it extends the seed, and the groups to come are untouched in it. -/
structure Untouched (seed : Solution) (groups : List Group) (row : Solution) : Prop where
  keeps : seed.Extends row
  fresh : ∀ group ∈ groups, ∀ v ∈ group.vars, row.get? v = seed.get? v

/-- So is the seed itself. -/
theorem Untouched.refl (seed : Solution) (groups : List Group) : Untouched seed groups seed :=
  ⟨.refl seed, fun _ _ _ _ => rfl⟩

namespace Independent

variable {g : Graph} {seed row final : Solution} {group : Group} {groups : List Group}

theorem tail (independent : Independent seed (group :: groups)) : Independent seed groups :=
  ⟨fun other member => independent.plain other (List.mem_cons_of_mem _ member),
    (List.pairwise_cons.mp independent.apart).2⟩

/-- Trying the first group leaves the others untouched. -/
theorem untouched_step (independent : Independent seed (group :: groups))
    (way : Untouched seed (group :: groups) row) {middle : Solution}
    (kept : middle ∈ orKeep row (group.evaluate g row)) : Untouched seed groups middle := by
  have untouched : Untouched seed groups row :=
    ⟨way.keeps, fun other member => way.fresh other (List.mem_cons_of_mem _ member)⟩
  rcases Group.mem_orKeep_plain (independent.plain group List.mem_cons_self) kept with
    rfl | ⟨σ, agrees, holds, rfl⟩
  · exact untouched
  · refine ⟨way.keeps.trans (Solution.extends_assign agrees), fun other member v there => ?_⟩
    rw [Solution.get?_assign]
    by_cases shared : v ∈ group.vars
    · -- A shared variable has the value that the seed gives it.
      have bound := (List.pairwise_cons.mp independent.apart).1 other member v shared there
      obtain ⟨t, value⟩ := Option.ne_none_iff_exists'.mp bound
      rw [if_pos shared, value, agrees v t (way.keeps v t value)]
    · rw [if_neg shared, untouched.fresh other member v there]

/-- In every row that the groups lead to, each of them is settled, and all else is as before. -/
theorem settled (independent : Independent seed groups) (way : Untouched seed groups row)
    (found : final ∈ Group.evaluateOptionals g groups [row]) :
    row.Extends final ∧ (∀ v, (∀ group ∈ groups, v ∉ group.vars) → final.get? v = row.get? v) ∧
      ∀ group ∈ groups, Settled g seed group final := by
  induction groups generalizing row with
  | nil =>
    rw [Group.evaluateOptionals, List.mem_singleton] at found
    subst found
    exact ⟨.refl _, fun _ _ => rfl, fun _ member => absurd member List.not_mem_nil⟩
  | cons group rest ih =>
    obtain ⟨middle, kept, later⟩ := Group.mem_evaluateOptionals_cons.mp found
    obtain ⟨extend, other, settledRest⟩ :=
      ih independent.tail (independent.untouched_step way kept) later
    have first := Group.mem_orKeep_plain (independent.plain group List.mem_cons_self) kept
    have apart := (List.pairwise_cons.mp independent.apart).1
    refine ⟨?_, fun v outside => ?_, fun one member => ?_⟩
    · rcases first with rfl | ⟨σ, agrees, -, rfl⟩
      · exact extend
      · exact (Solution.extends_assign agrees).trans extend
    · rw [other v fun one member => outside one (List.mem_cons_of_mem _ member)]
      rcases first with rfl | ⟨σ, -, -, rfl⟩
      · rfl
      · rw [Solution.get?_assign, if_neg (outside group List.mem_cons_self)]
    rcases List.mem_cons.mp member with rfl | member
    · rcases first with rfl | ⟨σ, agrees, holds, rfl⟩
      · refine .inl fun v there => ?_
        by_cases bound : seed.get? v = none
        · -- No later group has the variable.
          rw [other v fun later member shared => apart later member v there shared bound,
            way.fresh one List.mem_cons_self v there]
        · obtain ⟨t, value⟩ := Option.ne_none_iff_exists'.mp bound
          rw [value, extend v t (way.keeps v t value)]
      · refine .inr ⟨σ, way.keeps.agrees agrees, holds, fun v there => extend v (σ v) ?_⟩
        rw [Solution.get?_assign, if_pos there]
    · exact settledRest one member

/-- Every answer of a group to the seed occurs in some row. -/
theorem exists_answered (independent : Independent seed groups) (way : Untouched seed groups row)
    (member : group ∈ groups) {σ : Valuation} (agrees : seed.Agrees σ) (holds : group.Matches g σ) :
    ∃ final ∈ Group.evaluateOptionals g groups [row],
      ∀ v ∈ group.vars, final.get? v = some (σ v) := by
  induction groups generalizing row with
  | nil => exact absurd member List.not_mem_nil
  | cons first rest ih =>
    simp only [Group.mem_evaluateOptionals_cons]
    rcases List.mem_cons.mp member with rfl | member
    · -- The valuation moved to the row: it differs only where the row binds other variables.
      let τ : Valuation := fun v => (row.get? v).getD (σ v)
      have rowAgrees : row.Agrees τ := fun v t bound => by simp [τ, bound]
      have same : ∀ v ∈ group.vars, σ v = τ v := fun v there => by
        simp only [τ, way.fresh group List.mem_cons_self v there]
        cases value : seed.get? v with
        | none => rfl
        | some t => exact agrees v t value
      have answered : row.assign group.vars τ ∈ orKeep row (group.evaluate g row) :=
        Group.mem_orKeep.mpr (.inl ((Group.mem_evaluate_plain (independent.plain group
          List.mem_cons_self)).mpr ⟨τ, rowAgrees, Group.matches_congr same holds, rfl⟩))
      obtain ⟨final, found⟩ := List.exists_mem_of_ne_nil _ (Group.evaluateOptionals_ne_nil g rest
        (List.cons_ne_nil (row.assign group.vars τ) []))
      have extend := (independent.tail.settled (independent.untouched_step way answered) found).1
      refine ⟨final, ⟨_, answered, found⟩, fun v there => extend v (σ v) ?_⟩
      rw [Solution.get?_assign, if_pos there, same v there]
    · obtain ⟨middle, kept⟩ := List.exists_mem_of_ne_nil _
        (Group.orKeep_ne_nil row (first.evaluate g row))
      obtain ⟨final, found, values⟩ :=
        ih independent.tail (independent.untouched_step way kept) member
      exact ⟨final, ⟨middle, kept, found⟩, values⟩

/-- The triples that the patterns of independent groups make of all rows are those that each group
makes of its own answers to the seed, and those of the patterns whose variables the seed binds already,
whether their group is answered or not. -/
theorem exists_instantiate?_iff_or_bound (independent : Independent seed groups)
    (simple : ∀ group ∈ groups, ∀ p ∈ group.patterns, p.verb.IsSimple)
    (valid : ∀ t ∈ g, t.isValid) {σ : Valuation} (agrees : seed.Agrees σ) {t : Triple} :
    (∃ final ∈ Group.evaluateOptionals g groups [seed], ∃ group ∈ groups, ∃ p ∈ group.patterns,
      p.instantiate? final = some t) ↔
      (∃ group ∈ groups, ∃ τ, seed.Agrees τ ∧ group.Matches g τ ∧
        ∃ p ∈ group.patterns, p.image τ = t) ∨
      ∃ group ∈ groups, ∃ p ∈ group.patterns, (∀ v ∈ p.vars, seed.get? v ≠ none) ∧ t.isValid ∧
        p.image σ = t := by
  have start : Untouched seed groups seed := .refl seed groups
  have instantiate : ∀ (group : Group) (final : Solution) (τ : Valuation), group ∈ groups →
      group.Matches g τ → (∀ v ∈ group.vars, final.get? v = some (τ v)) →
      ∀ p ∈ group.patterns, p.instantiate? final = some (p.image τ) := by
    intro group final τ member holds values p pattern
    have triple : p.image τ ∈ g :=
      (TriplePattern.holds_iff (simple group member p pattern)).mp (holds p pattern)
    rw [TriplePattern.instantiate?_of_bound (simple group member p pattern)
      fun v there => values v (Group.vars_of_mem pattern there), if_pos (valid _ triple)]
  have known : ∀ (group : Group) (final : Solution), group ∈ groups →
      final ∈ Group.evaluateOptionals g groups [seed] → ∀ p ∈ group.patterns,
      (∀ v ∈ p.vars, seed.get? v ≠ none) →
        p.instantiate? final = if (p.image σ).isValid then some (p.image σ) else none := by
    intro group final member found p pattern bound
    refine TriplePattern.instantiate?_of_bound (simple group member p pattern) fun v there => ?_
    obtain ⟨u, value⟩ := Option.ne_none_iff_exists'.mp (bound v there)
    rw [(independent.settled start found).1 v u value, agrees v u value]
  constructor
  · rintro ⟨final, found, group, member, p, pattern, made⟩
    rcases (independent.settled start found).2.2 group member with open_ | ⟨τ, agrees, holds, values⟩
    · -- An unanswered group makes triples of those patterns alone that have no open variable.
      have bound : ∀ v ∈ p.vars, seed.get? v ≠ none := by
        intro v there unbound
        have unbound : final.get? v = none := (open_ v (Group.vars_of_mem pattern there)).trans unbound
        rw [TriplePattern.instantiate?_of_unbound there unbound] at made
        exact absurd made nofun
      rw [known group final member found p pattern bound, Option.ite_none_right_eq_some,
        Option.some.injEq] at made
      obtain ⟨isValid, rfl⟩ := made
      exact .inr ⟨group, member, p, pattern, bound, isValid, rfl⟩
    · rw [instantiate group final τ member holds values p pattern] at made
      exact .inl ⟨group, member, τ, agrees, holds, p, pattern, Option.some.inj made⟩
  · rintro (⟨group, member, τ, agrees, holds, p, pattern, rfl⟩ |
      ⟨group, member, p, pattern, bound, isValid, rfl⟩)
    · obtain ⟨final, found, values⟩ := independent.exists_answered start member agrees holds
      exact ⟨final, found, group, member, p, pattern,
        instantiate group final τ member holds values p pattern⟩
    · obtain ⟨final, found⟩ := List.exists_mem_of_ne_nil _
        (Group.evaluateOptionals_ne_nil g groups (List.cons_ne_nil seed []))
      refine ⟨final, found, group, member, p, pattern, ?_⟩
      rw [known group final member found p pattern bound, if_pos isValid]

end Independent

/-! ## A single optional group -/

theorem Solution.agrees_assign_empty_iff {vs : List Variable} {σ τ : Valuation} :
    (Solution.assign ∅ vs σ).Agrees τ ↔ ∀ v ∈ vs, τ v = σ v := by
  refine ⟨fun agrees v member => eq_of_agrees_assign agrees member, fun same v t bound => ?_⟩
  rw [get?_assign] at bound
  by_cases member : v ∈ vs
  · rw [if_pos member] at bound
    rw [same v member, Option.some.inj bound]
  · rw [if_neg member] at bound
    nomatch bound

namespace Dataset

variable {d : Dataset} {patterns : List TriplePattern} {optional : Group} {row : Solution}
  {σ : Valuation}

/-- A row answers the required patterns, and the optional group along with them unless nothing
does. -/
theorem mem_select_optional (plain : optional.optionals = []) :
    row ∈ d.select { patterns, optionals := [optional] } ↔
      ∃ σ : Valuation, (∀ p ∈ patterns, p.Holds (d.graph none) σ) ∧
        (optional.Matches (d.graph none) σ ∧
            row = Solution.assign ∅ (patterns.flatMap (·.vars) ++ optional.vars) σ ∨
          (∀ τ : Valuation, (∀ v ∈ patterns.flatMap (·.vars), τ v = σ v) →
              ¬ optional.Matches (d.graph none) τ) ∧
            row = Solution.assign ∅ (patterns.flatMap (·.vars)) σ) := by
  have unfolded : row ∈ d.select { patterns, optionals := [optional] } ↔
      ∃ middle ∈ extendAll (d.graph none) patterns [∅],
        row ∈ orKeep middle (optional.evaluate (d.graph none) middle) := by
    rw [select, selectIn, Group.evaluate, Group.evaluateOptionals, Group.evaluateOptionals,
      List.mem_flatMap]
  rw [unfolded]
  simp only [mem_extendAll, List.mem_singleton, exists_eq_left, Group.mem_orKeep,
    List.eq_nil_iff_forall_not_mem, Group.mem_evaluate_plain plain]
  constructor
  · rintro ⟨_, ⟨σ, -, holds, rfl⟩, ⟨τ, agrees, answered, rfl⟩ | ⟨nothing, rfl⟩⟩
    · have same := Solution.agrees_assign_empty_iff.mp agrees
      refine ⟨τ, fun p pattern => ?_, .inl ⟨answered, ?_⟩⟩
      · exact (TriplePattern.holds_congr fun v there =>
          (same v (List.mem_flatMap.mpr ⟨p, pattern, there⟩)).symm).mp (holds p pattern)
      · rw [Solution.assign_append, Solution.assign_congr same]
    · exact ⟨σ, holds, .inr ⟨fun τ same answered =>
        nothing _ ⟨τ, Solution.agrees_assign_empty_iff.mpr same, answered, rfl⟩, rfl⟩⟩
  · rintro ⟨σ, holds, ⟨answered, rfl⟩ | ⟨silent, rfl⟩⟩
    · exact ⟨_, ⟨σ, Solution.agrees_empty, holds, rfl⟩, .inl ⟨σ,
        Solution.agrees_assign Solution.agrees_empty, answered, Solution.assign_append⟩⟩
    · refine ⟨_, ⟨σ, Solution.agrees_empty, holds, rfl⟩, .inr ⟨fun extended => ?_, rfl⟩⟩
      rintro ⟨τ, agrees, answered, -⟩
      exact silent τ (Solution.agrees_assign_empty_iff.mp agrees) answered

/-- Every row answers the required patterns. -/
theorem exists_valuation_of_row (plain : optional.optionals = [])
    (found : row ∈ d.select { patterns, optionals := [optional] }) :
    ∃ σ : Valuation, (∀ p ∈ patterns, p.Holds (d.graph none) σ) ∧
      ∀ v ∈ patterns.flatMap (·.vars), row.get? v = some (σ v) := by
  obtain ⟨σ, holds, ⟨-, rfl⟩ | ⟨-, rfl⟩⟩ := (mem_select_optional plain).mp found
  · exact ⟨σ, holds, fun v member => by
      rw [Solution.get?_assign, if_pos (List.mem_append_left _ member)]⟩
  · exact ⟨σ, holds, fun v member => by rw [Solution.get?_assign, if_pos member]⟩

/-- Every answer to the required patterns stands in a row. -/
theorem exists_row_of_holds (plain : optional.optionals = [])
    (holds : ∀ p ∈ patterns, p.Holds (d.graph none) σ) :
    ∃ row ∈ d.select { patterns, optionals := [optional] },
      ∀ v ∈ patterns.flatMap (·.vars), row.get? v = some (σ v) := by
  by_cases silent : ∀ τ : Valuation, (∀ v ∈ patterns.flatMap (·.vars), τ v = σ v) →
      ¬ optional.Matches (d.graph none) τ
  · refine ⟨_, (mem_select_optional plain).mpr ⟨σ, holds, .inr ⟨silent, rfl⟩⟩, fun v there => ?_⟩
    rw [Solution.get?_assign, if_pos there]
  · push Not at silent
    obtain ⟨τ, same, answered⟩ := silent
    have holdsToo : ∀ p ∈ patterns, p.Holds (d.graph none) τ := fun p pattern =>
      (TriplePattern.holds_congr fun v there =>
        (same v (List.mem_flatMap.mpr ⟨p, pattern, there⟩)).symm).mp (holds p pattern)
    refine ⟨_, (mem_select_optional plain).mpr ⟨τ, holdsToo, .inl ⟨answered, rfl⟩⟩, fun v there => ?_⟩
    rw [Solution.get?_assign, if_pos (List.mem_append_left _ there), same v there]

end Dataset
end Formulary
