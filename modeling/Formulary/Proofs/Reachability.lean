import Formulary.Pattern.Evaluation
import Formulary.Proofs.FiniteContent
import Mathlib.Data.Finset.Card
import Mathlib.Logic.Relation

/-!
# Reachability

The search along a predicate finds exactly the terms at the end of one or more steps: its fuel
covers every term that can be queued, so it stops with nothing left to expand.
-/

namespace Formulary
open Std Relation

namespace Graph

/-- One step along a predicate. -/
def Edge (g : Graph) (predicate source target : Term) : Prop := ⟨source, predicate, target⟩ ∈ g

theorem mem_objects {g : Graph} {subject predicate object : Term} :
    object ∈ g.objects subject predicate ↔ g.Edge predicate subject object := by
  simp only [objects, Edge, List.mem_map, List.mem_filter, Bool.and_eq_true, beq_iff_eq,
    SortedSet.mem_toList]
  constructor
  · rintro ⟨⟨s, p, o⟩, ⟨member, rfl, rfl⟩, rfl⟩
    exact member
  · intro member
    exact ⟨_, ⟨member, rfl, rfl⟩, rfl⟩

/-- The objects of a subject and predicate are in their order. -/
theorem ascending_objects {g : Graph} {subject predicate : Term} :
    (g.objects subject predicate).Pairwise fun a b => compare a b = .lt := by
  refine List.pairwise_map.mpr ((g.ascending.filter _).imp_of_mem fun {t u} here there below => ?_)
  simp only [List.mem_filter, Bool.and_eq_true, beq_iff_eq] at here there
  have subjects : compare t.subject u.subject = .eq := by rw [here.2.1, there.2.1, compare_self]
  have predicates : compare t.predicate u.predicate = .eq := by
    rw [here.2.2, there.2.2, compare_self]
  have unfolded : compare t u = (compare t.subject u.subject).then
      ((compare t.predicate u.predicate).then (compare t.object u.object)) := rfl
  rw [unfolded, subjects, predicates] at below
  exact below

theorem nodup_objects {g : Graph} {subject predicate : Term} :
    (g.objects subject predicate).Nodup :=
  ascending_objects.imp fun below same => by simp [same] at below

/-- What the search keeps true: only reached terms are seen, and of the start and the seen terms
every one that is not queued has been expanded. -/
structure Frontier (g : Graph) (predicate start : Term) (queue : List Term) (seen : SortedSet Term) :
    Prop where
  reached : ∀ a ∈ seen, TransGen (g.Edge predicate) start a
  queued : ∀ a ∈ queue, a = start ∨ a ∈ seen
  expanded : ∀ a, a = start ∨ a ∈ seen → a ∉ queue → ∀ b, g.Edge predicate a b → b ∈ seen

/-- The objects of the graph that the search has not seen. -/
def unseen (g : Graph) (seen : SortedSet Term) : Finset Term :=
  (g.toList.map (·.object)).toFinset \ seen.toList.toFinset

theorem mem_unseen {g : Graph} {seen : SortedSet Term} {a : Term} :
    a ∈ g.unseen seen ↔ (∃ t ∈ g, t.object = a) ∧ a ∉ seen := by
  simp [unseen, SortedSet.mem_toList]

variable {g : Graph} {predicate start : Term}

/-- The objects of a node that have not been seen. -/
private theorem mem_fresh {node a : Term} {seen : SortedSet Term} :
    a ∈ ((SortedSet.ofList (g.objects node predicate)).diff seen).toList ↔
      g.Edge predicate node a ∧ a ∉ seen := by
  rw [SortedSet.mem_toList, SortedSet.mem_diff, SortedSet.mem_ofList, mem_objects]

private theorem frontier_step {node : Term} {queue : List Term} {seen : SortedSet Term}
    (inv : g.Frontier predicate start (node :: queue) seen) :
    let fresh := (SortedSet.ofList (g.objects node predicate)).diff seen
    g.Frontier predicate start (queue ++ fresh.toList) (seen.insertMany fresh.toList) := by
  intro fresh
  have member : ∀ a, a ∈ seen.insertMany fresh.toList ↔
      a ∈ seen ∨ g.Edge predicate node a ∧ a ∉ seen := fun a => by
    rw [SortedSet.mem_insertMany, mem_fresh]
  have nodeKnown : node = start ∨ node ∈ seen := inv.queued node List.mem_cons_self
  refine ⟨fun a found => ?_, fun a waits => ?_, fun a known idle b edge => ?_⟩
  · rcases (member a).mp found with old | ⟨edge, -⟩
    · exact inv.reached a old
    · rcases nodeKnown with rfl | nodeSeen
      · exact .single edge
      · exact (inv.reached node nodeSeen).tail edge
  · rcases List.mem_append.mp waits with waits | new
    · exact (inv.queued a (List.mem_cons_of_mem _ waits)).imp_right fun old => (member a).mpr (.inl old)
    · exact .inr ((member a).mpr (.inr (mem_fresh.mp new)))
  · obtain ⟨idleOld, idleNew⟩ := not_or.mp (mt List.mem_append.mpr idle)
    by_cases bSeen : b ∈ seen
    · exact (member b).mpr (.inl bSeen)
    · have notFresh : ¬ (g.Edge predicate node a ∧ a ∉ seen) := fun new => idleNew (mem_fresh.mpr new)
      have aKnown : a = start ∨ a ∈ seen := known.imp_right fun found =>
        ((member a).mp found).resolve_right notFresh
      by_cases here : a = node
      · exact (member b).mpr (.inr ⟨here ▸ edge, bSeen⟩)
      · have aIdle : a ∉ node :: queue := by
          intro waits
          rcases List.mem_cons.mp waits with same | waits
          · exact here same
          · exact idleOld waits
        exact absurd (inv.expanded a aKnown aIdle b edge) bSeen

/-- Every fresh object is counted once among the unseen ones and leaves them. -/
private theorem card_unseen_step (g : Graph) (predicate node : Term) (seen : SortedSet Term) :
    let fresh := (SortedSet.ofList (g.objects node predicate)).diff seen
    fresh.toList.length + (g.unseen (seen.insertMany fresh.toList)).card ≤ (g.unseen seen).card := by
  intro fresh
  have apart : Disjoint fresh.toList.toFinset (g.unseen (seen.insertMany fresh.toList)) := by
    rw [Finset.disjoint_left]
    intro a new left
    exact (mem_unseen.mp left).2 (SortedSet.mem_insertMany.mpr (.inr (List.mem_toFinset.mp new)))
  have within : fresh.toList.toFinset ∪ g.unseen (seen.insertMany fresh.toList) ⊆ g.unseen seen := by
    intro a found
    rcases Finset.mem_union.mp found with new | left
    · obtain ⟨edge, notSeen⟩ := mem_fresh.mp (List.mem_toFinset.mp new)
      exact mem_unseen.mpr ⟨⟨_, edge, rfl⟩, notSeen⟩
    · obtain ⟨object, notSeen⟩ := mem_unseen.mp left
      exact mem_unseen.mpr ⟨object, fun old => notSeen (SortedSet.mem_insertMany.mpr (.inl old))⟩
  calc fresh.toList.length + (g.unseen (seen.insertMany fresh.toList)).card
      = (fresh.toList.toFinset ∪ g.unseen (seen.insertMany fresh.toList)).card := by
        rw [Finset.card_union_of_disjoint apart, List.toFinset_card_of_nodup fresh.nodup_toList]
    _ ≤ (g.unseen seen).card := Finset.card_le_card within

/-- With nothing queued, whatever is reached has been seen. -/
private theorem mem_seen_of_idle {seen : SortedSet Term} (inv : g.Frontier predicate start [] seen)
    {a : Term} (path : TransGen (g.Edge predicate) start a) : a ∈ seen := by
  induction path with
  | single edge => exact inv.expanded start (.inl rfl) List.not_mem_nil _ edge
  | tail _ edge ih => exact inv.expanded _ (.inr ih) List.not_mem_nil _ edge

private theorem mem_reachableFrom (fuel : Nat) (queue : List Term) (seen : SortedSet Term)
    (inv : g.Frontier predicate start queue seen)
    (enough : queue.length + (g.unseen seen).card ≤ fuel) (a : Term) :
    a ∈ reachableFrom g predicate fuel queue seen ↔ TransGen (g.Edge predicate) start a := by
  induction fuel generalizing queue seen with
  | zero =>
    have empty : queue = [] := List.eq_nil_of_length_eq_zero (by omega)
    subst empty
    exact ⟨inv.reached a, mem_seen_of_idle inv⟩
  | succ fuel ih =>
    cases queue with
    | nil => exact ⟨inv.reached a, mem_seen_of_idle inv⟩
    | cons node queue =>
      have spent := card_unseen_step g predicate node seen
      refine ih _ _ (frontier_step inv) ?_
      rw [List.length_append]
      rw [List.length_cons] at enough
      omega

/-- One step for the start and one for each triple are enough. -/
private theorem fuel_enough (g : Graph) (start : Term) :
    [start].length + (g.unseen ∅).card ≤ g.size + 1 := by
  have objects : (g.unseen ∅).card ≤ g.size :=
    calc (g.unseen ∅).card ≤ (g.toList.map (·.object)).toFinset.card :=
          Finset.card_le_card Finset.sdiff_subset
      _ ≤ (g.toList.map (·.object)).length := List.toFinset_card_le _
      _ = g.size := List.length_map _
  rw [List.length_singleton]
  omega

/-- The search finds exactly the ends of one or more steps. -/
theorem mem_reachable {g : Graph} {start predicate a : Term} :
    a ∈ reachable g start predicate ↔ TransGen (g.Edge predicate) start a := by
  refine mem_reachableFrom _ _ _ ⟨fun b found => ?_, fun b waits => ?_, fun b known idle => ?_⟩
    (fuel_enough g start) a
  · exact absurd found SortedSet.not_mem_empty
  · exact .inl (List.mem_singleton.mp waits)
  · exact absurd (known.resolve_right SortedSet.not_mem_empty ▸ List.mem_singleton_self _) idle

/-! ## The search without a bound -/

/-- Takes note of an object: one that has not been seen is queued behind the others. -/
def discover (state : List Term × SortedSet Term) (object : Term) : List Term × SortedSet Term :=
  if object ∈ state.2 then state else (state.1 ++ [object], state.2.insert object)

/-- The search comes to its end: as long as terms are queued, the first of them is taken off and its
objects are noted one by one. -/
inductive Searches (g : Graph) (predicate : Term) : List Term × SortedSet Term → SortedSet Term → Prop
  | idle {seen : SortedSet Term} : Searches g predicate ([], seen) seen
  | expand {node : Term} {queue : List Term} {seen found : SortedSet Term} :
      Searches g predicate ((g.objects node predicate).foldl discover (queue, seen)) found →
      Searches g predicate (node :: queue, seen) found

theorem Searches.unique {state : List Term × SortedSet Term} {one two : SortedSet Term}
    (first : g.Searches predicate state one) (second : g.Searches predicate state two) : one = two := by
  induction first with
  | idle =>
    cases second with
    | idle => rfl
  | expand _ ih =>
    cases second with
    | expand later => exact ih later

/-- Noting objects one by one queues and adds those that have not been seen. -/
theorem foldl_discover {objects queue : List Term} {seen : SortedSet Term} (nodup : objects.Nodup) :
    objects.foldl discover (queue, seen) =
      (queue ++ objects.filter fun a => decide (a ∉ seen),
        seen.insertMany (objects.filter fun a => decide (a ∉ seen))) := by
  induction objects generalizing queue seen with
  | nil => simp [SortedSet.insertMany]
  | cons object rest ih =>
    obtain ⟨once, nodup⟩ := List.nodup_cons.mp nodup
    rw [List.foldl_cons, discover]
    by_cases old : object ∈ seen
    · simp [old, ih nodup]
    · have others : rest.filter (fun a => decide (a ∉ seen.insert object)) =
          rest.filter fun a => decide (a ∉ seen) := by
        refine List.filter_congr fun a member => ?_
        have differ : a ≠ object := fun same => once (same ▸ member)
        simp [differ]
      rw [if_neg old, ih nodup, others]
      simp [old, SortedSet.insertMany]

private theorem searches_reachableFrom (fuel : Nat) (queue : List Term) (seen : SortedSet Term)
    (enough : queue.length + (g.unseen seen).card ≤ fuel) :
    g.Searches predicate (queue, seen) (reachableFrom g predicate fuel queue seen) := by
  induction fuel generalizing queue seen with
  | zero =>
    obtain rfl : queue = [] := List.eq_nil_of_length_eq_zero (by omega)
    exact .idle
  | succ fuel ih =>
    cases queue with
    | nil => exact .idle
    | cons node queue =>
      have spent := card_unseen_step g predicate node seen
      have fresh : ((SortedSet.ofList (g.objects node predicate)).diff seen).toList =
          (g.objects node predicate).filter fun a => decide (a ∉ seen) := by
        refine (SortedSet.ascending _).eq_of_mem_iff (ascending_objects.filter _) fun a => ?_
        rw [mem_fresh, List.mem_filter, mem_objects, decide_eq_true_eq]
      refine .expand ?_
      rw [foldl_discover nodup_objects, ← fresh]
      refine ih _ _ ?_
      rw [List.length_append]
      rw [List.length_cons] at enough
      omega

/-- Without a bound on its steps the search comes to an end, and finds the same. -/
theorem searches_iff {found : SortedSet Term} :
    g.Searches predicate ([start], ∅) found ↔ found = reachable g start predicate := by
  have ends : g.Searches predicate ([start], ∅) (reachable g start predicate) :=
    searches_reachableFrom _ _ _ (fuel_enough g start)
  exact ⟨fun other => other.unique ends, fun same => same ▸ ends⟩

end Graph
end Formulary
