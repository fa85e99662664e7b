import Formulary.Proofs.PathRows
import Formulary.Proofs.SolutionAlgebra

/-!
# Rows that exclude each other

No answer to a group is given twice, and none is a part of another one: any two of its rows bind some
variable to different terms (`Group.rows_exclusive`). That they differ would not be enough to know on
the way. An optional group leaves one row as it is and extends another one, and rows that only differ
might become the same; rows that disagree about a variable go on to disagree, whatever they are
extended by.
-/

namespace Formulary
open Std

/-! ## Rows that disagree -/

namespace Solution

variable {seed row one two : Solution} {rows extensions : List Solution}

theorem not_compatible_iff : ¬ one.Compatible two ↔
    ∃ v a b, one.get? v = some a ∧ two.get? v = some b ∧ a ≠ b := by
  simp only [Compatible, not_forall, exists_prop]

theorem Compatible.symm (compatible : one.Compatible two) : two.Compatible one :=
  fun v a b first second => (compatible v b a second first).symm

/-- Rows that agree do so on what they were extended from. -/
theorem Compatible.of_extends_both {before after : Solution} (compatible : before.Compatible after)
    (first : one.Extends before) (second : two.Extends after) : one.Compatible two :=
  fun v a b here there => compatible v a b (first v a here) (second v b there)

/-- A row agrees with everything that extends it. -/
theorem Extends.compatible (extend : one.Extends two) : one.Compatible two :=
  fun v _ _ first second => Option.some.inj ((extend v _ first).symm.trans second)

/-- The rows of a list grow out of a seed and disagree with each other. -/
structure Branches (seed : Solution) (rows : List Solution) : Prop where
  grown : ∀ row ∈ rows, seed.Extends row
  apart : rows.Pairwise fun one two => ¬ one.Compatible two

namespace Branches

theorem self (seed : Solution) : seed.Branches [seed] where
  grown _ member := List.mem_singleton.mp member ▸ .refl seed
  apart := List.pairwise_singleton _ _

/-- Branches that branch again are branches of the seed. -/
theorem flatMap {next : Solution → List Solution} (branches : seed.Branches rows)
    (further : ∀ row ∈ rows, row.Branches (next row)) : seed.Branches (rows.flatMap next) where
  grown extended member := by
    obtain ⟨row, here, later⟩ := List.mem_flatMap.mp member
    exact (branches.grown row here).trans ((further row here).grown extended later)
  apart := by
    refine List.pairwise_flatMap.mpr ⟨fun row here => (further row here).apart, ?_⟩
    refine branches.apart.imp_of_mem fun {one two} here there disagree => ?_
    intro before first after second compatible
    exact disagree (compatible.of_extends_both ((further one here).grown before first)
      ((further two there).grown after second))

theorem orKeep (branches : row.Branches extensions) : row.Branches (orKeep row extensions) := by
  cases extensions with
  | nil => exact self row
  | cons => exact branches

/-- Branches at different positions disagree. -/
theorem disagree (branches : seed.Branches rows) {i j : Nat} (hi : i < rows.length)
    (hj : j < rows.length) (other : i ≠ j) : ¬ rows[i].Compatible rows[j] := by
  have apart := List.pairwise_iff_getElem.mp branches.apart
  rcases Nat.lt_or_gt_of_ne other with before | after
  · exact apart i j hi hj before
  · exact fun compatible => apart j i hj hi after compatible.symm

theorem nodup (branches : seed.Branches rows) : rows.Nodup := by
  refine branches.apart.imp fun {one two} disagree => ?_
  rintro rfl
  exact disagree (Extends.refl one).compatible

end Branches
end Solution

/-! ## Patterns -/

/-- A slot has no two values in rows that agree. -/
theorem Slot.eq_of_compatible {slot : Slot} {one two : Solution} {a b : Term}
    (compatible : one.Compatible two) (first : slot.value? one = some a)
    (second : slot.value? two = some b) : a = b := by
  cases slot with
  | var v => exact compatible v a b first second
  | term t => exact Option.some.inj (first.symm.trans second)

namespace TriplePattern

variable {g : Graph} {p : TriplePattern} {row : Solution}

/-- Two triples that a simple pattern is bound to give rows that disagree. -/
theorem eq_of_bindTriple? (simple : p.verb.IsSimple) {t u : Triple} {one two : Solution}
    (first : p.bindTriple? row t = some one) (second : p.bindTriple? row u = some two)
    (compatible : one.Compatible two) : t = u := by
  obtain ⟨σ, -, rfl, rfl⟩ := (bindTriple?_eq_some_iff simple).mp first
  obtain ⟨τ, -, rfl, rfl⟩ := (bindTriple?_eq_some_iff simple).mp second
  refine image_congr fun v member => compatible v (σ v) (τ v) ?_ ?_
  · rw [Solution.get?_assign, if_pos member]
  · rw [Solution.get?_assign, if_pos member]

/-- So do two pairs of ends of a path. -/
theorem eq_of_fill {s o : Slot} {pair other : Term × Term} (fits : row.Fits s o pair)
    (fits' : row.Fits s o other)
    (compatible : (row.fill s o pair).Compatible (row.fill s o other)) : pair = other :=
  Prod.ext (Slot.eq_of_compatible compatible fits.subject_fill fits'.subject_fill)
    (Slot.eq_of_compatible compatible fits.object_fill fits'.object_fill)

theorem branches_extend (g : Graph) (p : TriplePattern) (row : Solution) :
    row.Branches (p.extend g row) where
  grown extended member := by
    obtain ⟨σ, agrees, -, rfl⟩ := mem_extend.mp member
    exact Solution.extends_assign agrees
  apart := by
    by_cases simple : p.verb.IsSimple
    · rw [extend_eq_filterMap simple, List.pairwise_filterMap]
      exact (SortedSet.nodup_toList g).imp fun {t u} differ one first two second compatible =>
        differ (eq_of_bindTriple? simple first second compatible)
    · obtain ⟨s, _ | _ | predicate, o⟩ := p
      · exact absurd trivial simple
      · exact absurd trivial simple
      · rw [Graph.extend_path_eq, List.pairwise_map]
        refine Graph.nodup_pathPairs.imp_of_mem fun {pair other} here there differ compatible => ?_
        exact differ (eq_of_fill (Graph.mem_pathPairs.mp here).2 (Graph.mem_pathPairs.mp there).2
          compatible)

end TriplePattern

theorem branches_extendAll (g : Graph) (patterns : List TriplePattern) {seed : Solution}
    {rows : List Solution} (branches : seed.Branches rows) :
    seed.Branches (extendAll g patterns rows) := by
  induction patterns generalizing rows with
  | nil => exact branches
  | cons p rest ih =>
    rw [extendAll, List.foldl_cons, ← extendAll]
    exact ih (branches.flatMap fun row _ => p.branches_extend g row)

/-! ## Groups -/

namespace Group

mutual

theorem branches_evaluate (g : Graph) : ∀ (group : Group) (seed : Solution),
    seed.Branches (group.evaluate g seed)
  | ⟨patterns, optionals⟩, seed => by
    rw [evaluate]
    exact branches_evaluateOptionals g optionals (branches_extendAll g patterns (.self seed))

theorem branches_evaluateOptionals (g : Graph) : ∀ (groups : List Group) {seed : Solution}
    {rows : List Solution}, seed.Branches rows → seed.Branches (evaluateOptionals g groups rows)
  | [], _, _, branches => by rwa [evaluateOptionals]
  | group :: rest, _, _, branches => by
    rw [evaluateOptionals]
    exact branches_evaluateOptionals g rest
      (branches.flatMap fun row _ => (branches_evaluate g group row).orKeep)

end

variable {g : Graph} {group : Group} {seed row : Solution}

/-- The required patterns bind their variables, and the optional groups leave them as they are. -/
theorem binds_of_mem_evaluate (found : row ∈ group.evaluate g seed) {v : Variable}
    (member : v ∈ group.vars) : row.Binds v := by
  obtain ⟨patterns, optionals⟩ := group
  rw [evaluate] at found
  obtain ⟨middle, answered, later⟩ := mem_evaluateOptionals.mp found
  obtain ⟨_, -, σ, -, -, rfl⟩ := mem_extendAll.mp answered
  have extend := (branches_evaluateOptionals g optionals (.self _)).grown row later
  exact extend.binds (Solution.binds_assign.mpr (.inl member))

/-- Every row of a group extends the seed and binds the variables of all required patterns, and rows at
different positions bind some variable to different terms. So no row of a query is given twice, and
none is a part of another one. -/
theorem rows_exclusive (g : Graph) (group : Group) (seed : Solution) :
    (∀ row ∈ group.evaluate g seed, seed.Extends row ∧
      ∀ p ∈ group.patterns, ∀ v ∈ p.vars, ∃ t, row.get? v = some t) ∧
    (∀ i j : Fin (group.evaluate g seed).length, i ≠ j → ∃ v a b,
      (group.evaluate g seed)[i].get? v = some a ∧ (group.evaluate g seed)[j].get? v = some b ∧
        a ≠ b) ∧
    ∀ (d : Dataset) (name : GraphName), (d.selectIn name group).Nodup ∧
      ∀ i j : Fin (d.selectIn name group).length, i ≠ j →
        ¬ (d.selectIn name group)[i].Extends (d.selectIn name group)[j] := by
  have branches := fun g seed => branches_evaluate g group seed
  refine ⟨fun row found => ⟨(branches g seed).grown row found, fun p pattern v member => ?_⟩,
    fun i j other => ?_, fun d name => ⟨(branches _ _).nodup, fun i j other extend => ?_⟩⟩
  · exact Solution.binds_iff.mp (binds_of_mem_evaluate found (vars_of_mem pattern member))
  · have disagree := (branches g seed).disagree i.isLt j.isLt (Fin.val_ne_of_ne other)
    exact Solution.not_compatible_iff.mp disagree
  · exact (branches _ _).disagree i.isLt j.isLt (Fin.val_ne_of_ne other) extend.compatible

end Group
end Formulary
