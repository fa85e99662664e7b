/-!
# Finite sets in order

A finite set is the list of its members in strictly ascending order, so two sets with the same
members are the same value and every traversal has one fixed order.
-/

namespace Formulary
open Std

/-- Finite set, held as the strictly ascending list of its members. -/
structure SortedSet (α : Type) [Ord α] where
  toList : List α
  ascending : toList.Pairwise fun a b => compare a b = .lt

namespace SortedSet

/-- Ordered insertion into a list; a member already present is left alone. -/
def place {α : Type} [Ord α] (a : α) : List α → List α
  | [] => [a]
  | b :: rest =>
    match compare a b with
    | .lt => a :: b :: rest
    | .eq => b :: rest
    | .gt => b :: place a rest

variable {α β : Type} [Ord α] [TransOrd α] [LawfulEqOrd α] [Ord β] [TransOrd β] [LawfulEqOrd β]

omit [TransOrd α] in
theorem mem_place {a c : α} {list : List α} : c ∈ place a list ↔ c = a ∨ c ∈ list := by
  induction list with
  | nil => simp [place]
  | cons b rest ih =>
    rw [place]
    split <;> rename_i order
    · simp
    · have same : a = b := LawfulEqCmp.eq_of_compare order
      simp [same]
    · simp only [List.mem_cons, ih]
      constructor
      · rintro (h | h | h) <;> simp [h]
      · rintro (h | h | h) <;> simp [h]

theorem ascending_place {a : α} {list : List α}
    (ascending : list.Pairwise fun a b => compare a b = .lt) :
    (place a list).Pairwise fun a b => compare a b = .lt := by
  induction list with
  | nil => simp [place]
  | cons b rest ih =>
    obtain ⟨above, tail⟩ := List.pairwise_cons.mp ascending
    rw [place]
    split <;> rename_i order
    · refine List.pairwise_cons.mpr ⟨fun c member => ?_, ascending⟩
      rcases List.mem_cons.mp member with same | later
      · exact same ▸ order
      · exact TransCmp.lt_trans order (above c later)
    · exact ascending
    · refine List.pairwise_cons.mpr ⟨fun c member => ?_, ih tail⟩
      rcases mem_place.mp member with same | later
      · exact same ▸ OrientedCmp.gt_iff_lt.mp order
      · exact above c later

/-- The set without members. -/
def empty : SortedSet α := ⟨[], .nil⟩

instance : EmptyCollection (SortedSet α) := ⟨empty⟩
instance : Inhabited (SortedSet α) := ⟨empty⟩
instance : Membership α (SortedSet α) := ⟨fun s a => a ∈ s.toList⟩
instance [DecidableEq α] (a : α) (s : SortedSet α) : Decidable (a ∈ s) :=
  inferInstanceAs (Decidable (a ∈ s.toList))
instance [DecidableEq α] : DecidableEq (SortedSet α) := fun s t =>
  decidable_of_iff (s.toList = t.toList) ⟨fun h => by cases s; cases t; simp_all, fun h => h ▸ rfl⟩

def insert (s : SortedSet α) (a : α) : SortedSet α := ⟨place a s.toList, ascending_place s.ascending⟩

def filter (s : SortedSet α) (keep : α → Bool) : SortedSet α :=
  ⟨s.toList.filter keep, s.ascending.filter keep⟩

def erase (s : SortedSet α) (a : α) : SortedSet α := s.filter fun b => compare a b != .eq

/-- The members of the set and those of the list. -/
def insertMany (s : SortedSet α) (list : List α) : SortedSet α := list.foldl insert s

/-- All members of a list, each once. -/
def ofList (list : List α) : SortedSet α := insertMany ∅ list

/-- The members of the first set without those of the second. -/
def diff [DecidableEq α] (s t : SortedSet α) : SortedSet α := s.filter fun a => decide (a ∉ t)

/-- The image under a function. -/
def map (f : α → β) (s : SortedSet α) : SortedSet β := ofList (s.toList.map f)

def size (s : SortedSet α) : Nat := s.toList.length

def isEmpty (s : SortedSet α) : Bool := s.toList.isEmpty

/-- The only member of a set that has just one. -/
def only? (s : SortedSet α) : Option α :=
  match s.toList with
  | [a] => some a
  | _ => none

omit [TransOrd α] [LawfulEqOrd α] in
theorem mem_toList {s : SortedSet α} {a : α} : a ∈ s.toList ↔ a ∈ s := Iff.rfl

omit [TransOrd α] [LawfulEqOrd α] in
@[simp] theorem not_mem_empty {a : α} : ¬ a ∈ (∅ : SortedSet α) := nofun

@[simp] theorem mem_insert {s : SortedSet α} {a c : α} : c ∈ s.insert a ↔ c = a ∨ c ∈ s := mem_place

omit [TransOrd α] [LawfulEqOrd α] in
@[simp] theorem mem_filter {s : SortedSet α} {keep : α → Bool} {a : α} :
    a ∈ s.filter keep ↔ a ∈ s ∧ keep a = true := List.mem_filter

omit [TransOrd α] in
@[simp] theorem mem_erase {s : SortedSet α} {a c : α} : c ∈ s.erase a ↔ c ∈ s ∧ c ≠ a := by
  simp only [erase, mem_filter, bne_iff_ne, ne_eq, LawfulEqCmp.compare_eq_iff_eq, and_congr_right_iff]
  exact fun _ => ⟨fun h e => h e.symm, fun h e => h e.symm⟩

@[simp] theorem mem_insertMany {s : SortedSet α} {list : List α} {c : α} :
    c ∈ s.insertMany list ↔ c ∈ s ∨ c ∈ list := by
  induction list generalizing s with
  | nil => simp [insertMany]
  | cons a rest ih =>
    rw [insertMany, List.foldl_cons, ← insertMany, ih]
    simp only [mem_insert, List.mem_cons]
    constructor
    · rintro ((h | h) | h) <;> simp [h]
    · rintro (h | h | h) <;> simp [h]

@[simp] theorem mem_ofList {list : List α} {c : α} : c ∈ ofList list ↔ c ∈ list := by
  simp [ofList]

omit [TransOrd α] [LawfulEqOrd α] in
@[simp] theorem mem_diff [DecidableEq α] {s t : SortedSet α} {a : α} :
    a ∈ s.diff t ↔ a ∈ s ∧ a ∉ t := by simp [diff]

omit [TransOrd α] [LawfulEqOrd α] in
@[simp] theorem mem_map {f : α → β} {s : SortedSet α} {b : β} :
    b ∈ s.map f ↔ ∃ a, a ∈ s ∧ f a = b := by
  simp [map, mem_toList]

omit [LawfulEqOrd α] in
theorem nodup_toList (s : SortedSet α) : s.toList.Nodup :=
  s.ascending.imp fun below same => by simp [same] at below

omit [LawfulEqOrd α] in
/-- A function that is injective keeps the number of members. -/
theorem size_map {f : α → β} (injective : ∀ a b, f a = f b → a = b) (s : SortedSet α) :
    (s.map f).size = s.size := by
  have distinct : (s.toList.map f).Nodup :=
    List.pairwise_map.mpr (s.nodup_toList.imp fun differ same => differ (injective _ _ same))
  have image : (s.map f).toList.Perm (s.toList.map f) :=
    (List.perm_ext_iff_of_nodup (nodup_toList _) distinct).mpr fun _ => mem_ofList
  rw [size, size, image.length_eq, List.length_map]

end SortedSet
end Formulary
