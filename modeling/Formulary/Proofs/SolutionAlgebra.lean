import Formulary.Proofs.IndependentOptionals
import Mathlib.Data.Set.Basic

/-!
# The algebra of solutions

What a group means in SPARQL. Its required patterns stand for the rows on their variables under which
all of them hold, and each optional group is found on its own and then joined on the left. No row is
handed into an optional group, so this reading does not follow the evaluation.
-/

namespace Formulary
open Std

namespace Solution

variable {one two three row : Solution} {v : Variable} {t : Term}

/-- The row gives the variable a term. -/
def Binds (row : Solution) (v : Variable) : Prop := row.get? v ≠ none

/-- No variable has different terms in the two rows. -/
def Compatible (one two : Solution) : Prop :=
  ∀ v a b, one.get? v = some a → two.get? v = some b → a = b

/-- Everything that either row binds. -/
def merge (one two : Solution) : Solution := two.assign one.keys one.valuation

theorem get?_merge : (one.merge two).get? v = (one.get? v).or (two.get? v) := by
  rw [merge, get?_assign]
  cases bound : one.get? v with
  | none =>
    have unbound : v ∉ one.keys := fun member => by
      obtain ⟨t, found⟩ := SortedMap.mem_keys.mp member
      exact absurd (bound.symm.trans found) nofun
    rw [if_neg unbound, Option.none_or]
  | some t => rw [if_pos (SortedMap.mem_keys.mpr ⟨t, bound⟩), valuation, bound, Option.some_or,
      Option.getD_some]

theorem binds_iff : row.Binds v ↔ ∃ t, row.get? v = some t := Option.ne_none_iff_exists'

theorem Binds.get?_eq (binds : row.Binds v) : row.get? v = some (row.valuation v) := by
  obtain ⟨t, bound⟩ := binds_iff.mp binds
  rw [valuation, bound, Option.getD_some]

theorem not_binds_empty : ¬ Binds ∅ v := fun binds => binds rfl

theorem binds_assign {vs : List Variable} {σ : Valuation} :
    (row.assign vs σ).Binds v ↔ v ∈ vs ∨ row.Binds v := by
  rw [Binds, get?_assign]
  by_cases member : v ∈ vs <;> simp [member, Binds]

@[simp] theorem binds_merge : (one.merge two).Binds v ↔ one.Binds v ∨ two.Binds v := by
  simp only [Binds, get?_merge, ne_eq, Option.or_eq_none_iff]
  tauto

theorem compatible_empty : Compatible ∅ row := nofun

theorem empty_merge : merge ∅ row = row := SortedMap.ext_get? fun v => by
  rw [get?_merge, SortedMap.get?_empty, Option.none_or]

theorem merge_empty : row.merge ∅ = row := SortedMap.ext_get? fun v => by
  rw [get?_merge, SortedMap.get?_empty, Option.or_none]

theorem merge_assoc : (one.merge two).merge three = one.merge (two.merge three) :=
  SortedMap.ext_get? fun v => by simp only [get?_merge, Option.or_assoc]

theorem extends_merge : one.Extends (one.merge two) := fun v t bound => by
  rw [get?_merge, bound, Option.some_or]

theorem Compatible.extends_merge (compatible : one.Compatible two) : two.Extends (one.merge two) := by
  intro v t bound
  rw [get?_merge]
  cases other : one.get? v with
  | none => exact bound
  | some s => rw [Option.some_or, compatible v s t other bound]

theorem Extends.binds (extend : one.Extends two) (binds : one.Binds v) : two.Binds v := by
  obtain ⟨t, bound⟩ := binds_iff.mp binds
  exact binds_iff.mpr ⟨t, extend v t bound⟩

theorem Compatible.of_extends (extend : one.Extends three) (compatible : three.Compatible two) :
    one.Compatible two := fun v a b first second => compatible v a b (extend v a first) second

/-- What the first row adds to the second is not bound by the third. -/
theorem merge_compatible_iff (shared : ∀ v, one.Binds v → three.Binds v → two.Binds v)
    (compatible : one.Compatible two) : (one.merge two).Compatible three ↔ two.Compatible three := by
  refine ⟨Compatible.of_extends compatible.extends_merge, fun later v a b first second => ?_⟩
  rw [get?_merge] at first
  cases known : one.get? v with
  | none =>
    rw [known, Option.none_or] at first
    exact later v a b first second
  | some s =>
    have binds : two.Binds v :=
      shared v (binds_iff.mpr ⟨s, known⟩) (binds_iff.mpr ⟨b, second⟩)
    rw [known, Option.some_or] at first
    obtain rfl := Option.some.inj first
    rw [← later v _ b binds.get?_eq second, compatible v s _ known binds.get?_eq]

theorem compatible_merge_iff (shared : ∀ v, one.Binds v → three.Binds v → two.Binds v) :
    one.Compatible (two.merge three) ↔ one.Compatible two := by
  refine ⟨fun compatible v a b first second => compatible v a b first (extends_merge v b second),
    fun compatible v a b first second => ?_⟩
  rw [get?_merge] at second
  cases known : two.get? v with
  | some s =>
    rw [known, Option.some_or] at second
    exact compatible v a b first (known.trans second)
  | none =>
    rw [known, Option.none_or] at second
    exact absurd known (shared v (binds_iff.mpr ⟨a, first⟩) (binds_iff.mpr ⟨b, second⟩))

end Solution

/-! ## Sets of rows -/

/-- All compatible rows of both sides, merged. -/
def join (left right : Set Solution) : Set Solution :=
  {row | ∃ a ∈ left, ∃ b ∈ right, a.Compatible b ∧ row = a.merge b}

/-- The join, and the rows of the left side that no row of the right side is compatible with. -/
def leftJoin (left right : Set Solution) : Set Solution :=
  join left right ∪ {a | a ∈ left ∧ ∀ b ∈ right, ¬ a.Compatible b}

section
variable {left right : Set Solution} {seed row : Solution}

theorem mem_join_singleton : row ∈ join {seed} right ↔
    ∃ b ∈ right, seed.Compatible b ∧ row = seed.merge b := by
  simp only [join, Set.mem_ofPred_eq, Set.mem_singleton_iff, exists_eq_left]

theorem join_unit : join {∅} right = right := Set.ext fun row => by
  rw [mem_join_singleton]
  constructor
  · rintro ⟨b, member, -, same⟩
    rw [same, Solution.empty_merge]
    exact member
  · exact fun member => ⟨row, member, Solution.compatible_empty, Solution.empty_merge.symm⟩

theorem join_empty : join left ∅ = ∅ := by
  simp [join]

theorem leftJoin_empty : leftJoin left ∅ = left := by
  simp [leftJoin, join_empty]

theorem leftJoin_unit (filled : right.Nonempty) : leftJoin {∅} right = right := by
  obtain ⟨b, member⟩ := filled
  have matched : {a | a ∈ ({∅} : Set Solution) ∧ ∀ b ∈ right, ¬ a.Compatible b} = ∅ :=
    Set.eq_empty_iff_forall_notMem.mpr fun a ⟨here, apart⟩ => by
      rw [Set.mem_singleton_iff] at here
      exact apart b member (here ▸ Solution.compatible_empty)
  rw [leftJoin, join_unit, matched, Set.union_empty]

theorem mem_leftJoin_singleton {a : Solution} : row ∈ leftJoin {a} right ↔
    (∃ b ∈ right, a.Compatible b ∧ row = a.merge b) ∨ (∀ b ∈ right, ¬ a.Compatible b) ∧ row = a := by
  rw [leftJoin, Set.mem_union, mem_join_singleton, Set.mem_ofPred_eq, Set.mem_singleton_iff]
  refine or_congr_right ⟨?_, ?_⟩
  · rintro ⟨rfl, apart⟩
    exact ⟨apart, rfl⟩
  · rintro ⟨apart, rfl⟩
    exact ⟨rfl, apart⟩

theorem leftJoin_singleton_unit : leftJoin {seed} {∅} = {seed} := Set.ext fun row => by
  have compatible : seed.Compatible ∅ := fun v a b _ there => absurd there nofun
  simp [mem_leftJoin_singleton, compatible, Solution.merge_empty]

/-- The left join takes each row of the left side by itself. -/
theorem mem_leftJoin : row ∈ leftJoin left right ↔ ∃ a ∈ left, row ∈ leftJoin {a} right := by
  simp only [mem_leftJoin_singleton]
  constructor
  · rintro (⟨a, here, b, there, compatible, rfl⟩ | ⟨here, apart⟩)
    · exact ⟨a, here, .inl ⟨b, there, compatible, rfl⟩⟩
    · exact ⟨row, here, .inr ⟨apart, rfl⟩⟩
  · rintro ⟨a, here, ⟨b, there, compatible, rfl⟩ | ⟨apart, rfl⟩⟩
    · exact .inl ⟨a, here, b, there, compatible, rfl⟩
    · exact .inr ⟨here, apart⟩

/-- A row may be joined before or after an optional group, where all that it shares with the optional
group is bound on the left already. -/
theorem leftJoin_join_singleton (shared : ∀ a ∈ left, ∀ b ∈ right, ∀ v, seed.Binds v → b.Binds v →
      a.Binds v) : leftJoin (join {seed} left) right = join {seed} (leftJoin left right) := by
  ext row
  rw [mem_leftJoin, mem_join_singleton]
  simp only [mem_join_singleton]
  constructor
  · rintro ⟨_, ⟨a, here, compatible, rfl⟩, found⟩
    have later : ∀ b ∈ right, (seed.merge a).Compatible b ↔ a.Compatible b := fun b there =>
      Solution.merge_compatible_iff (shared a here b there) compatible
    rcases mem_leftJoin_singleton.mp found with ⟨b, there, both, rfl⟩ | ⟨apart, rfl⟩
    · have next : a.Compatible b := (later b there).mp both
      refine ⟨a.merge b, mem_leftJoin.mpr ⟨a, here, mem_leftJoin_singleton.mpr
        (.inl ⟨b, there, next, rfl⟩)⟩, ?_, Solution.merge_assoc⟩
      exact (Solution.compatible_merge_iff (shared a here b there)).mpr compatible
    · refine ⟨a, mem_leftJoin.mpr ⟨a, here, mem_leftJoin_singleton.mpr (.inr ⟨fun b there next => ?_,
        rfl⟩)⟩, compatible, rfl⟩
      exact apart b there ((later b there).mpr next)
  · rintro ⟨middle, found, compatible, rfl⟩
    obtain ⟨a, here, found⟩ := mem_leftJoin.mp found
    rcases mem_leftJoin_singleton.mp found with ⟨b, there, next, rfl⟩ | ⟨apart, same⟩
    · have bound := shared a here b there
      have first : seed.Compatible a := (Solution.compatible_merge_iff bound).mp compatible
      refine ⟨_, ⟨a, here, first, rfl⟩, mem_leftJoin_singleton.mpr (.inl ⟨b, there, ?_,
        Solution.merge_assoc.symm⟩)⟩
      exact (Solution.merge_compatible_iff bound first).mpr next
    · subst same
      refine ⟨_, ⟨middle, here, compatible, rfl⟩, mem_leftJoin_singleton.mpr
        (.inr ⟨fun b there later => ?_, rfl⟩)⟩
      exact apart b there
        ((Solution.merge_compatible_iff (shared middle here b there) compatible).mp later)

end

/-! ## The meaning of groups -/

/-- The rows on exactly the variables of patterns under which all of them hold. -/
def conjunction (g : Graph) (patterns : List TriplePattern) : Set Solution :=
  {row | (∀ v, row.Binds v ↔ ∃ p ∈ patterns, v ∈ p.vars) ∧ ∀ p ∈ patterns, p.Holds g row.valuation}

namespace Group

mutual

/-- The solutions of a group, found on their own. -/
def solutions (g : Graph) : Group → Set Solution
  | ⟨patterns, optionals⟩ => joinOptionals g optionals (conjunction g patterns)

/-- Joins the solutions of optional groups on the left, in order. -/
def joinOptionals (g : Graph) : List Group → Set Solution → Set Solution
  | [], rows => rows
  | group :: rest, rows => joinOptionals g rest (leftJoin rows (group.solutions g))

end

end Group

variable {g : Graph} {patterns : List TriplePattern} {seed row : Solution}

/-- A row of a conjunction binds the variables of its patterns to the values of a valuation under
which they hold. -/
theorem mem_conjunction_iff : row ∈ conjunction g patterns ↔ ∃ σ : Valuation,
    (∀ p ∈ patterns, p.Holds g σ) ∧ row = Solution.assign ∅ (patterns.flatMap (·.vars)) σ := by
  constructor
  · rintro ⟨domain, holds⟩
    refine ⟨_, holds, SortedMap.ext_get? fun v => ?_⟩
    have listed : row.Binds v ↔ v ∈ patterns.flatMap (·.vars) := (domain v).trans List.mem_flatMap.symm
    rw [Solution.get?_assign]
    by_cases member : v ∈ patterns.flatMap (·.vars)
    · rw [if_pos member, (listed.mpr member).get?_eq]
    · rw [if_neg member, SortedMap.get?_empty]
      exact not_not.mp (mt listed.mp member)
  · rintro ⟨σ, holds, rfl⟩
    have domain : ∀ v, Solution.Binds (Solution.assign ∅ (patterns.flatMap (·.vars)) σ) v ↔
        ∃ p ∈ patterns, v ∈ p.vars := fun v => by
      rw [Solution.binds_assign, or_iff_left Solution.not_binds_empty, List.mem_flatMap]
    refine ⟨domain, fun p pattern => (TriplePattern.holds_congr fun v there => ?_).mp (holds p pattern)⟩
    have bound := ((domain v).mpr ⟨p, pattern, there⟩).get?_eq
    rw [Solution.get?_assign, if_pos (List.mem_flatMap.mpr ⟨p, pattern, there⟩)] at bound
    exact Option.some.inj bound

/-- Extending a row by patterns is joining it with their conjunction. -/
theorem mem_extendAll_iff_join : row ∈ extendAll g patterns [seed] ↔
    row ∈ join {seed} (conjunction g patterns) := by
  rw [mem_extendAll, mem_join_singleton]
  simp only [List.mem_singleton, exists_eq_left, mem_conjunction_iff]
  constructor
  · rintro ⟨σ, agrees, holds, rfl⟩
    refine ⟨_, ⟨σ, holds, rfl⟩, fun v a b known found => ?_, SortedMap.ext_get? fun v => ?_⟩
    · exact (agrees v a known).symm.trans (Solution.agrees_assign Solution.agrees_empty v b found)
    · rw [Solution.get?_merge, Solution.get?_assign, Solution.get?_assign, SortedMap.get?_empty]
      cases known : seed.get? v with
      | none => rw [Option.none_or]
      | some t => rw [agrees v t known, Option.some_or, ite_self]
  · rintro ⟨_, ⟨σ, holds, rfl⟩, compatible, rfl⟩
    let found := Solution.assign ∅ (patterns.flatMap (·.vars)) σ
    -- The valuation of the merged row agrees with both rows.
    let τ := (seed.merge found).valuation
    have values : ∀ v ∈ patterns.flatMap (·.vars), σ v = τ v := fun v member => by
      have bound : (seed.merge found).get? v = some (σ v) := compatible.extends_merge v (σ v)
        (by rw [Solution.get?_assign, if_pos member])
      exact (Solution.agrees_valuation v _ bound).symm
    refine ⟨τ, Solution.extends_merge.agrees Solution.agrees_valuation, fun p pattern => ?_, ?_⟩
    · exact (TriplePattern.holds_congr fun v there =>
        values v (List.mem_flatMap.mpr ⟨p, pattern, there⟩)).mp (holds p pattern)
    · refine SortedMap.ext_get? fun v => ?_
      rw [Solution.get?_merge, Solution.get?_assign, Solution.get?_assign, SortedMap.get?_empty]
      by_cases member : v ∈ patterns.flatMap (·.vars)
      · rw [if_pos member, if_pos member, values v member]
        cases known : seed.get? v with
        | none => rfl
        | some t =>
          rw [Option.some_or, ← Solution.agrees_valuation v t (Solution.extends_merge v t known)]
      · rw [if_neg member, if_neg member, Option.or_none]

end Formulary
