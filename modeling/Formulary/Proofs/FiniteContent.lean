import Formulary.Dataset
import Mathlib.Data.List.Sort
import Mathlib.Data.Set.Card

/-!
# Content of sets, maps and datasets

Lists in ascending order of their keys are the same list where they have the same members. So a finite
set is determined by its members (`SortedSet.ext_mem`), a finite map by its view
(`SortedMap.ext_get?`), and a dataset by its graphs (`Dataset.ext_graph`). The size of a set is the
number of its members (`SortedSet.size_eq_ncard`), and a new entry of a map has one place among the
others (`SortedMap.exists_split_insert`).
-/

namespace Formulary
open Std

section
variable {α κ : Type} [Ord κ] [TransOrd κ] {key : α → κ}

instance irrefl_below : Std.Irrefl fun a b : α => compare (key a) (key b) = .lt :=
  ⟨fun a below => by simp at below⟩

instance antisymm_below : Std.Antisymm fun a b : α => compare (key a) (key b) = .lt :=
  ⟨fun a b below above => by simpa using TransCmp.lt_trans below above⟩

end

/-- A list without duplicates is a single element where it has just this member. -/
theorem eq_singleton_iff_of_nodup {α : Type} {a : α} {list : List α} (nodup : list.Nodup) :
    list = [a] ↔ ∀ b, b ∈ list ↔ b = a := by
  constructor
  · intro single b
    rw [single, List.mem_singleton]
  · intro members
    refine List.perm_singleton.mp ((List.perm_ext_iff_of_nodup nodup (List.nodup_singleton a)).mpr
      fun b => ?_)
    rw [members, List.mem_singleton]

/-- A list without duplicates is as long as it has members. -/
theorem length_eq_ncard {α : Type} {list : List α} {members : Set α} (nodup : list.Nodup)
    (same : ∀ a, a ∈ list ↔ a ∈ members) : list.length = members.ncard := by
  classical
  have finite : members = (list.toFinset : Set α) := Set.ext fun a => by
    rw [List.coe_toFinset, Set.mem_ofPred_eq, same]
  rw [finite, Set.ncard_coe_finset, List.toFinset_card_of_nodup nodup]

/-! ## Sets -/

namespace SortedSet

variable {α : Type} [Ord α] {s t : SortedSet α} {a : α}

theorem toList_eq_nil_iff : s.toList = [] ↔ ∀ b, b ∉ s := List.eq_nil_iff_forall_not_mem

variable [TransOrd α]

/-- A set is determined by its members. -/
theorem ext_mem (same : ∀ a, a ∈ s ↔ a ∈ t) : s = t := by
  have lists : s.toList = t.toList := s.ascending.eq_of_mem_iff t.ascending same
  cases s; cases t; simp_all

theorem toList_eq_singleton_iff : s.toList = [a] ↔ ∀ b, b ∈ s ↔ b = a :=
  eq_singleton_iff_of_nodup s.nodup_toList

theorem only?_eq_some_iff : s.only? = some a ↔ ∀ b, b ∈ s ↔ b = a := by
  rw [← toList_eq_singleton_iff, only?]
  split <;> simp_all

@[simp] theorem ofList_toList [LawfulEqOrd α] : ofList s.toList = s :=
  ext_mem fun _ => mem_ofList.trans mem_toList

theorem size_eq_ncard (s : SortedSet α) : s.size = {a | a ∈ s}.ncard :=
  length_eq_ncard s.nodup_toList fun _ => mem_toList

/-- A union and an intersection have together as many members as the two sets. -/
theorem size_union {s t union inter : SortedSet α} (either : ∀ a, a ∈ union ↔ a ∈ s ∨ a ∈ t)
    (both : ∀ a, a ∈ inter ↔ a ∈ s ∧ a ∈ t) : union.size + inter.size = s.size + t.size := by
  have finite : ∀ s : SortedSet α, {a | a ∈ s}.Finite := fun s => s.toList.finite_toSet
  have one : {a | a ∈ union} = {a | a ∈ s} ∪ {a | a ∈ t} := Set.ext either
  have two : {a | a ∈ inter} = {a | a ∈ s} ∩ {a | a ∈ t} := Set.ext both
  simp only [size_eq_ncard, one, two]
  exact Set.ncard_union_add_ncard_inter _ _ (finite s) (finite t)

end SortedSet

/-! ## Maps -/

namespace SortedMap

variable {κ β : Type} [Ord κ] {key : κ}

theorem exists_split_place (value : β) {list : List (κ × β)}
    (fresh : ∀ entry ∈ list, compare key entry.1 ≠ .eq) :
    ∃ before after, list = before ++ after ∧ place key value list = before ++ (key, value) :: after := by
  induction list with
  | nil => exact ⟨[], [], rfl, rfl⟩
  | cons entry rest ih =>
    obtain ⟨apart, others⟩ := List.forall_mem_cons.mp fresh
    rw [place]
    split <;> rename_i order
    · exact ⟨[], entry :: rest, rfl, rfl⟩
    · exact absurd order apart
    · obtain ⟨before, after, rfl, placed⟩ := ih others
      exact ⟨entry :: before, after, rfl, by rw [placed]; rfl⟩

variable [TransOrd κ] [LawfulEqOrd κ] {m n : SortedMap κ β}

/-- A map is determined by its view. -/
theorem ext_get? (same : ∀ key, m.get? key = n.get? key) : m = n := by
  have entries : m.entries = n.entries := m.ascending.eq_of_mem_iff n.ascending fun entry => by
    rw [← get?_eq_some_iff, ← get?_eq_some_iff, same]
  cases m; cases n; simp_all

/-- A new entry goes between those of smaller and those of greater keys. -/
theorem exists_split_insert (value : β) (fresh : m.get? key = none) : ∃ before after,
    m.entries = before ++ after ∧ (m.insert key value).entries = before ++ (key, value) :: after ∧
      (∀ entry ∈ before, compare entry.1 key = .lt) ∧ ∀ entry ∈ after, compare key entry.1 = .lt := by
  have apart : ∀ entry ∈ m.entries, compare key entry.1 ≠ .eq := fun entry member order => by
    obtain rfl := LawfulEqCmp.eq_of_compare order
    have found := get?_eq_some_iff.mpr member
    rw [fresh] at found
    nomatch found
  obtain ⟨before, after, split, placed⟩ := exists_split_place value apart
  have ascending : (before ++ (key, value) :: after).Pairwise fun a b => compare a.1 b.1 = .lt :=
    placed ▸ (m.insert key value).ascending
  obtain ⟨-, later, across⟩ := List.pairwise_append.mp ascending
  exact ⟨before, after, split, placed, fun entry member => across entry member _ List.mem_cons_self,
    (List.pairwise_cons.mp later).1⟩

variable [DecidableEq κ] {value : β}

/-- Distinct entries added to a map are found there, along with what was there under other keys. -/
private theorem get?_foldl_insert {list : List (κ × β)} (distinct : (list.map Prod.fst).Nodup) :
    (list.foldl (fun m entry => m.insert entry.1 entry.2) m).get? key = some value ↔
      (key, value) ∈ list ∨ key ∉ list.map Prod.fst ∧ m.get? key = some value := by
  induction list generalizing m with
  | nil => simp
  | cons entry rest ih =>
    obtain ⟨apart, distinct⟩ := List.nodup_cons.mp distinct
    rw [List.foldl_cons, ih distinct, get?_insert]
    by_cases here : key = entry.1
    · subst here
      have notLater : ∀ value, (entry.1, value) ∉ rest := fun value member =>
        apart (List.mem_map.mpr ⟨_, member, rfl⟩)
      simp [apart, notLater, Prod.ext_iff, eq_comm]
    · have notHere : (key, value) ≠ entry := fun same => here (congrArg Prod.fst same)
      simp [here, notHere]

theorem get?_ofList {list : List (κ × β)} (distinct : (list.map Prod.fst).Nodup) :
    (ofList list).get? key = some value ↔ (key, value) ∈ list := by
  rw [ofList, get?_foldl_insert distinct]
  simp

end SortedMap

/-! ## Datasets -/

namespace Dataset

variable {d e : Dataset} {name : GraphName} {t : Triple} {rest : List Triple}

/-- A graph is held unless it is empty. -/
theorem get?_graphs : d.graphs.get? name = if d.graph name = ∅ then none else some (d.graph name) := by
  rw [graph]
  cases held : d.graphs.get? name with
  | none => rfl
  | some g =>
    have occupied : g ≠ ∅ := d.occupied (name, g) (SortedMap.get?_eq_some_iff.mp held)
    rw [Option.getD_some, if_neg occupied]

/-- A dataset is determined by its graphs. -/
theorem ext_graph (same : ∀ name, d.graph name = e.graph name) : d = e := by
  have graphs : d.graphs = e.graphs := SortedMap.ext_get? fun name => by
    rw [get?_graphs, get?_graphs, same]
  cases d; cases e; simp_all

@[simp] theorem insertMany_nil : d.insertMany name [] = d := by
  refine ext_graph fun other => ?_
  rw [insertMany, graph_setGraph]
  split
  · subst other
    rfl
  · rfl

theorem insertMany_cons :
    d.insertMany name (t :: rest) = (d.insertIn name t).2.insertMany name rest := by
  refine ext_graph fun other => ?_
  simp only [insertMany, insertIn, graph_setGraph, if_pos]
  split
  · rfl
  · rfl

end Dataset
end Formulary
