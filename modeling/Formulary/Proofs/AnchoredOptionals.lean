import Formulary.Proofs.InstanceSelection
import Formulary.Proofs.WellDesigned

/-!
# Optional groups around the same variables

Plain optional groups that share exactly some variables, tried under a row that binds these, and the
same groups in a group without required patterns, found on their own and then joined. There the first
group that has an answer at all decides: rows that it does not answer keep nothing of the later ones
(`Anchored.same_rows_iff`).
-/

namespace Formulary
open Std

/-- The group holds for some values of the variables that the row leaves open. -/
def Answers (g : Graph) (row : Solution) (group : Group) : Prop :=
  ∃ σ, row.Agrees σ ∧ group.Matches g σ

/-- The first group of a list that has an answer in the graph. -/
def Leads (g : Graph) (groups : List Group) (lead : Group) : Prop :=
  ∃ before after, groups = before ++ lead :: after ∧ Answers g ∅ lead ∧
    ∀ group ∈ before, ¬ Answers g ∅ group

variable {g : Graph} {group lead : Group} {groups before after : List Group} {seed row : Solution}

theorem Answers.unseeded (answers : Answers g row group) : Answers g ∅ group :=
  let ⟨σ, _, holds⟩ := answers
  ⟨σ, Solution.agrees_empty, holds⟩

theorem exists_leads (member : group ∈ groups) (answers : Answers g ∅ group) :
    ∃ lead, Leads g groups lead := by
  induction groups with
  | nil => exact absurd member List.not_mem_nil
  | cons first rest ih =>
    by_cases here : Answers g ∅ first
    · exact ⟨first, [], rest, rfl, here, fun _ none => absurd none List.not_mem_nil⟩
    · have later : group ∈ rest := (List.mem_cons.mp member).resolve_left fun same =>
        here (same ▸ answers)
      obtain ⟨lead, before, after, rfl, found, silent⟩ := ih later
      exact ⟨lead, first :: before, after, rfl, found, List.forall_mem_cons.mpr ⟨here, silent⟩⟩

namespace Group

theorem evaluate_ne_nil_iff (plain : group.optionals = []) :
    group.evaluate g row ≠ [] ↔ Answers g row group := by
  constructor
  · intro filled
    obtain ⟨extended, found⟩ := List.exists_mem_of_ne_nil _ filled
    obtain ⟨σ, agrees, holds, -⟩ := (mem_evaluate_plain plain).mp found
    exact ⟨σ, agrees, holds⟩
  · rintro ⟨σ, agrees, holds⟩
    exact List.ne_nil_of_mem ((mem_evaluate_plain plain).mpr ⟨σ, agrees, holds, rfl⟩)

theorem evaluate_eq_nil (plain : group.optionals = []) (silent : ¬ Answers g row group) :
    group.evaluate g row = [] := not_not.mp (mt (evaluate_ne_nil_iff plain).mp silent)

theorem solutions_plain (plain : group.optionals = []) :
    group.solutions g = conjunction g group.patterns := by
  obtain ⟨patterns, optionals⟩ := group
  subst plain
  rw [solutions, joinOptionals]

theorem solutions_eq_empty (plain : group.optionals = []) (silent : ¬ Answers g ∅ group) :
    group.solutions g = ∅ := by
  rw [solutions_plain plain]
  refine Set.eq_empty_iff_forall_notMem.mpr fun row found => silent ?_
  exact ⟨_, Solution.agrees_empty, found.2⟩

theorem solutions_nonempty (plain : group.optionals = []) (answers : Answers g ∅ group) :
    (group.solutions g).Nonempty := by
  obtain ⟨σ, -, holds⟩ := answers
  rw [solutions_plain plain]
  exact ⟨_, mem_conjunction_iff.mpr ⟨σ, holds, rfl⟩⟩

theorem joinOptionals_append {rows : Set Solution} :
    joinOptionals g (before ++ after) rows = joinOptionals g after (joinOptionals g before rows) := by
  induction before generalizing rows with
  | nil => rfl
  | cons group rest ih => exact ih

theorem joinOptionals_silent {rows : Set Solution} (silent : ∀ group ∈ groups, group.solutions g = ∅) :
    joinOptionals g groups rows = rows := by
  induction groups with
  | nil => rfl
  | cons group rest ih =>
    obtain ⟨here, later⟩ := List.forall_mem_cons.mp silent
    rw [joinOptionals, here, leftJoin_empty, ih later]

theorem evaluateOptionals_append {rows : List Solution} :
    evaluateOptionals g (before ++ after) rows =
      evaluateOptionals g after (evaluateOptionals g before rows) := by
  induction before generalizing rows with
  | nil => rfl
  | cons group rest ih => exact ih

theorem evaluateOptionals_silent (silent : ∀ group ∈ groups, group.evaluate g row = []) :
    evaluateOptionals g groups [row] = [row] := by
  induction groups with
  | nil => rfl
  | cons group rest ih =>
    obtain ⟨here, later⟩ := List.forall_mem_cons.mp silent
    rw [evaluateOptionals, List.flatMap_cons, List.flatMap_nil, List.append_nil, here]
    exact ih later

theorem evaluateOptionals_nil : evaluateOptionals g groups [] = [] := by
  induction groups with
  | nil => rfl
  | cons group rest ih => exact ih

end Group

/-- Plain optional groups, each with all of the given variables and with others of its own, which share
no others. -/
structure Anchored (vs : List Variable) (groups : List Group) : Prop where
  plain : ∀ group ∈ groups, group.optionals = []
  apart : groups.Pairwise fun a b => ∀ v ∈ a.vars, v ∈ b.vars → v ∈ vs
  common : ∀ group ∈ groups, ∀ v ∈ vs, v ∈ group.vars
  own : ∀ group ∈ groups, ∃ v ∈ group.vars, v ∉ vs

namespace Anchored

variable {vs : List Variable}

/-- Groups around the variables of what comes before them are well designed. -/
theorem optionalsDesigned (plain : ∀ group ∈ groups, group.optionals = [])
    (apart : groups.Pairwise fun a b => ∀ v ∈ a.vars, v ∈ b.vars → v ∈ vs) {known : List Variable}
    (within : ∀ v ∈ vs, v ∈ known) : Group.OptionalsDesigned vs known groups := by
  induction groups generalizing known with
  | nil => trivial
  | cons group rest ih =>
    obtain ⟨here, later⟩ := List.forall_mem_cons.mp plain
    obtain ⟨first, others⟩ := List.pairwise_cons.mp apart
    have vars : ∀ group : Group, group.optionals = [] → group.allVars = group.vars := by
      rintro ⟨patterns, _⟩ rfl
      simp [Group.allVars, Group.allPatterns, Group.patternsOf, Group.vars]
    refine ⟨fun v there shared => within v ?_, ?_, ih later others fun v member =>
      List.mem_append_left _ (within v member)⟩
    · rw [vars group here] at there
      rcases shared with member | shared
      · exact member
      · obtain ⟨p, pattern, inside⟩ := List.mem_flatMap.mp shared
        obtain ⟨other, listed, pattern⟩ := (Group.mem_patternsOf_plain later).mp pattern
        exact first other listed v there (Group.vars_of_mem pattern inside)
    · obtain ⟨patterns, _⟩ := group
      subst here
      trivial

theorem of_append (anchored : Anchored vs (before ++ lead :: after)) :
    Anchored vs (lead :: after) where
  plain group member := anchored.plain group (List.mem_append_right _ member)
  apart := (List.pairwise_append.mp anchored.apart).2.1
  common group member := anchored.common group (List.mem_append_right _ member)
  own group member := anchored.own group (List.mem_append_right _ member)

theorem independent (anchored : Anchored vs groups) (bound : ∀ v, seed.Binds v ↔ v ∈ vs) :
    Independent seed groups where
  plain := anchored.plain
  apart := anchored.apart.imp fun shared v one two => (bound v).mpr (shared v one two)

/-- A leading group and what follows it, as one group. -/
def ledBy (lead : Group) (after : List Group) : Group := ⟨lead.patterns, after⟩

section
variable (anchored : Anchored vs groups) (split : groups = before ++ lead :: after)
  (found : Answers g ∅ lead) (silent : ∀ group ∈ before, ¬ Answers g ∅ group)
include anchored split found silent

/-- On their own, the groups mean what the leading one means with the later ones. -/
theorem joinOptionals_unit : Group.joinOptionals g groups {∅} = (ledBy lead after).solutions g := by
  subst split
  have plain : lead.optionals = [] := anchored.of_append.plain lead List.mem_cons_self
  rw [Group.joinOptionals_append, Group.joinOptionals_silent fun group member =>
    Group.solutions_eq_empty (anchored.plain group (List.mem_append_left _ member))
      (silent group member)]
  rw [Group.joinOptionals, leftJoin_unit (Group.solutions_nonempty plain found),
    Group.solutions_plain plain]
  rfl

/-- Joined to a row, the groups are the leading one with the later ones, tried under the row. -/
theorem mem_leftJoin_iff (bound : ∀ v, seed.Binds v ↔ v ∈ vs) :
    row ∈ leftJoin {seed} (Group.joinOptionals g groups {∅}) ↔
      row ∈ orKeep seed ((ledBy lead after).evaluate g seed) := by
  rw [anchored.joinOptionals_unit split found silent]
  subst split
  obtain ⟨-, later⟩ := List.forall_mem_cons.mp anchored.of_append.plain
  have designed : (ledBy lead after).WellDesigned vs :=
    optionalsDesigned later (List.pairwise_cons.mp anchored.of_append.apart).2
      (anchored.of_append.common lead List.mem_cons_self)
  exact (Group.mem_orKeep_iff_leftJoin
    (Group.mem_evaluate_iff_join _ designed fun v binds => (bound v).mp binds)).symm

/-- Under a row that the leading group answers, the groups are tried from that one on. -/
theorem evaluateOptionals_of_answers (answers : Answers g seed lead) :
    Group.evaluateOptionals g groups [seed] = (ledBy lead after).evaluate g seed := by
  subst split
  have plain : lead.optionals = [] := anchored.of_append.plain lead List.mem_cons_self
  have filled : lead.evaluate g seed ≠ [] := (Group.evaluate_ne_nil_iff plain).mpr answers
  have skipped : Group.evaluateOptionals g before [seed] = [seed] :=
    Group.evaluateOptionals_silent fun group member => Group.evaluate_eq_nil
      (anchored.plain group (List.mem_append_left _ member)) (mt Answers.unseeded (silent group member))
  have kept : orKeep seed (lead.evaluate g seed) = lead.evaluate g seed := by
    rw [orKeep, if_neg (by simpa using filled)]
  rw [Group.evaluateOptionals_append, skipped, Group.evaluateOptionals, List.flatMap_cons,
    List.flatMap_nil, List.append_nil, kept]
  obtain ⟨patterns, optionals⟩ := lead
  subst plain
  rfl

end

/-- A row that the leading group does not answer has no row with the later ones. -/
theorem evaluate_ledBy_eq_nil (plain : lead.optionals = []) (silent : ¬ Answers g seed lead) :
    (ledBy lead after).evaluate g seed = [] := by
  have nothing := Group.evaluate_eq_nil plain silent
  obtain ⟨patterns, optionals⟩ := lead
  subst plain
  rw [Group.evaluate, Group.evaluateOptionals] at nothing
  rw [ledBy, Group.evaluate, nothing, Group.evaluateOptionals_nil]

/-- With a leading group, joining the groups to a row gives the rows of trying them under it exactly if
the leading group answers the row or none does. -/
theorem same_rows_iff_of_split (anchored : Anchored vs groups) (bound : ∀ v, seed.Binds v ↔ v ∈ vs)
    (split : groups = before ++ lead :: after) (found : Answers g ∅ lead)
    (silent : ∀ group ∈ before, ¬ Answers g ∅ group) :
    (∀ row, row ∈ Group.evaluateOptionals g groups [seed] ↔
      row ∈ leftJoin {seed} (Group.joinOptionals g groups {∅})) ↔
      ((∃ group ∈ groups, Answers g seed group) → Answers g seed lead) := by
  simp only [anchored.mem_leftJoin_iff split found silent bound]
  have plain : lead.optionals = [] :=
    anchored.plain lead (split ▸ List.mem_append_right _ List.mem_cons_self)
  by_cases answers : Answers g seed lead
  · have filled := Group.evaluateOptionals_ne_nil g groups (List.cons_ne_nil seed [])
    rw [anchored.evaluateOptionals_of_answers split found silent answers] at filled ⊢
    rw [orKeep, if_neg (by simpa using filled)]
    exact iff_of_true (fun _ => .rfl) fun _ => answers
  · rw [evaluate_ledBy_eq_nil plain answers]
    have kept : orKeep seed [] = [seed] := rfl
    rw [kept, imp_iff_not answers]
    constructor
    · rintro same ⟨group, member, σ, agrees, holds⟩
      obtain ⟨final, reached, values⟩ := (anchored.independent bound).exists_answered
        (.refl seed _) member agrees holds
      obtain rfl := List.mem_singleton.mp ((same final).mp reached)
      -- The group has bound a variable that the row leaves open.
      obtain ⟨v, there, open_⟩ := anchored.own group member
      exact open_ ((bound v).mp (Solution.binds_iff.mpr ⟨_, values v there⟩))
    · intro none row
      rw [Group.evaluateOptionals_silent fun group member => Group.evaluate_eq_nil
        (anchored.plain group member) fun answered => none ⟨group, member, answered⟩]

/-- Joining the groups to a row after finding them on their own gives the rows of trying them under it
exactly if the leading group answers the row or none does. -/
theorem same_rows_iff (anchored : Anchored vs groups) (bound : ∀ v, seed.Binds v ↔ v ∈ vs) :
    (∀ row, row ∈ Group.evaluateOptionals g groups [seed] ↔
      row ∈ leftJoin {seed} (Group.joinOptionals g groups {∅})) ↔
      ∀ lead, Leads g groups lead → (∃ group ∈ groups, Answers g seed group) → Answers g seed lead := by
  constructor
  · rintro same lead ⟨before, after, split, found, silent⟩
    exact (anchored.same_rows_iff_of_split bound split found silent).mp same
  · intro led
    by_cases some : ∃ group ∈ groups, Answers g ∅ group
    · obtain ⟨group, member, answers⟩ := some
      obtain ⟨lead, before, after, split, found, silent⟩ := exists_leads member answers
      exact (anchored.same_rows_iff_of_split bound split found silent).mpr
        (led lead ⟨before, after, split, found, silent⟩)
    · intro row
      have none : ∀ group ∈ groups, ¬ Answers g ∅ group := fun group member answers =>
        some ⟨group, member, answers⟩
      rw [Group.evaluateOptionals_silent fun group member => Group.evaluate_eq_nil
        (anchored.plain group member) (mt Answers.unseeded (none group member)),
        Group.joinOptionals_silent fun group member => Group.solutions_eq_empty
          (anchored.plain group member) (none group member), leftJoin_singleton_unit,
        List.mem_singleton, Set.mem_singleton_iff]

end Anchored
end Formulary
