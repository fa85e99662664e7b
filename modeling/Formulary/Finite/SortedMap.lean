/-!
# Finite maps in order

A finite map is the list of its entries in strictly ascending key order. `SortedMap.get?` is the
view: each operation is described by what it does to it, and maps with the same view are the same
value.
-/

namespace Formulary
open Std

/-- Finite map, held as the list of its entries in strictly ascending key order. -/
structure SortedMap (κ β : Type) [Ord κ] where
  entries : List (κ × β)
  ascending : entries.Pairwise fun a b => compare a.1 b.1 = .lt

namespace SortedMap

/-- Ordered insertion of an entry into a list; an entry of the same key is replaced. -/
def place {κ β : Type} [Ord κ] (key : κ) (value : β) : List (κ × β) → List (κ × β)
  | [] => [(key, value)]
  | entry :: rest =>
    match compare key entry.1 with
    | .lt => (key, value) :: entry :: rest
    | .eq => (key, value) :: rest
    | .gt => entry :: place key value rest

/-- The value that a list of entries holds for a key. -/
def lookup {κ β : Type} [Ord κ] (key : κ) : List (κ × β) → Option β
  | [] => none
  | entry :: rest => if compare key entry.1 = .eq then some entry.2 else lookup key rest

variable {κ β γ : Type} [Ord κ] [TransOrd κ] [LawfulEqOrd κ]

omit [TransOrd κ] [LawfulEqOrd κ] in
theorem mem_place {key : κ} {value : β} {entry : κ × β} {list : List (κ × β)}
    (member : entry ∈ place key value list) : entry = (key, value) ∨ entry ∈ list := by
  induction list with
  | nil => simpa [place] using member
  | cons head rest ih =>
    rw [place] at member
    split at member
    · exact List.mem_cons.mp member
    · rcases List.mem_cons.mp member with h | h
      · exact .inl h
      · exact .inr (List.mem_cons_of_mem _ h)
    · rcases List.mem_cons.mp member with h | h
      · exact .inr (h ▸ List.mem_cons_self)
      · exact (ih h).imp_right (List.mem_cons_of_mem _)

theorem ascending_place {key : κ} {value : β} {list : List (κ × β)}
    (ascending : list.Pairwise fun a b => compare a.1 b.1 = .lt) :
    (place key value list).Pairwise fun a b => compare a.1 b.1 = .lt := by
  induction list with
  | nil => simp [place]
  | cons head rest ih =>
    obtain ⟨above, tail⟩ := List.pairwise_cons.mp ascending
    rw [place]
    split <;> rename_i order
    · refine List.pairwise_cons.mpr ⟨fun entry member => ?_, ascending⟩
      rcases List.mem_cons.mp member with same | later
      · exact same ▸ order
      · exact TransCmp.lt_trans order (above entry later)
    · refine List.pairwise_cons.mpr ⟨fun entry member => ?_, tail⟩
      exact (LawfulEqCmp.eq_of_compare order : key = head.1) ▸ above entry member
    · refine List.pairwise_cons.mpr ⟨fun entry member => ?_, ih tail⟩
      rcases mem_place member with same | later
      · exact same ▸ OrientedCmp.gt_iff_lt.mp order
      · exact above entry later

instance : EmptyCollection (SortedMap κ β) := ⟨⟨[], .nil⟩⟩
instance : Inhabited (SortedMap κ β) := ⟨∅⟩
instance [DecidableEq κ] [DecidableEq β] : DecidableEq (SortedMap κ β) := fun m n =>
  decidable_of_iff (m.entries = n.entries) ⟨fun h => by cases m; cases n; simp_all, fun h => h ▸ rfl⟩

def get? (m : SortedMap κ β) (key : κ) : Option β := lookup key m.entries

def insert (m : SortedMap κ β) (key : κ) (value : β) : SortedMap κ β :=
  ⟨place key value m.entries, ascending_place m.ascending⟩

def erase (m : SortedMap κ β) (key : κ) : SortedMap κ β :=
  ⟨m.entries.filter fun entry => compare key entry.1 != .eq, m.ascending.filter _⟩

/-- Replaces the value of a key by a function of what was there. -/
def upsert (m : SortedMap κ β) (key : κ) (value : Option β → β) : SortedMap κ β :=
  m.insert key (value (m.get? key))

/-- The map of a list of entries; the last entry of a key counts. -/
def ofList (list : List (κ × β)) : SortedMap κ β :=
  list.foldl (fun m entry => m.insert entry.1 entry.2) ∅

def keys (m : SortedMap κ β) : List κ := m.entries.map Prod.fst

def values (m : SortedMap κ β) : List β := m.entries.map Prod.snd

def size (m : SortedMap κ β) : Nat := m.entries.length

def isEmpty (m : SortedMap κ β) : Bool := m.entries.isEmpty

/-- Applies a function to every value. -/
def mapValues (f : β → γ) (m : SortedMap κ β) : SortedMap κ γ :=
  ⟨m.entries.map fun entry => (entry.1, f entry.2), by
    simpa [List.pairwise_map] using m.ascending⟩

omit [TransOrd κ] [LawfulEqOrd κ] in
/-- Functions that agree on the values of a map give the same map. -/
theorem mapValues_congr {m : SortedMap κ β} {f f' : β → γ}
    (same : ∀ value ∈ m.values, f value = f' value) : m.mapValues f = m.mapValues f' := by
  simp only [mapValues, mk.injEq]
  refine List.map_congr_left fun entry member => ?_
  rw [same entry.2 (List.mem_map_of_mem member)]

omit [TransOrd κ] [LawfulEqOrd κ] in
@[simp] theorem get?_empty {key : κ} : (∅ : SortedMap κ β).get? key = none := rfl

omit [TransOrd κ] in
private theorem lookup_place [DecidableEq κ] {key other : κ} {value : β} {list : List (κ × β)} :
    lookup other (place key value list) = if other = key then some value else lookup other list := by
  induction list with
  | nil => simp [place, lookup, LawfulEqCmp.compare_eq_iff_eq]
  | cons head rest ih =>
    rw [place]
    split <;> rename_i order
    · simp [lookup, LawfulEqCmp.compare_eq_iff_eq]
    · have same : key = head.1 := LawfulEqCmp.eq_of_compare order
      by_cases h : other = key <;> simp [lookup, LawfulEqCmp.compare_eq_iff_eq, ← same, h]
    · have apart : key ≠ head.1 := fun same => by simp [same] at order
      by_cases h : other = key
      · subst h
        simpa [lookup, LawfulEqCmp.compare_eq_iff_eq, apart] using ih
      · simp only [lookup, LawfulEqCmp.compare_eq_iff_eq, ih, h, if_false]

omit [TransOrd κ] in
private theorem lookup_eq_some {key : κ} {value : β} {list : List (κ × β)}
    (ascending : list.Pairwise fun a b => compare a.1 b.1 = .lt) :
    lookup key list = some value ↔ (key, value) ∈ list := by
  induction list with
  | nil => simp [lookup]
  | cons head rest ih =>
    obtain ⟨above, tail⟩ := List.pairwise_cons.mp ascending
    rw [lookup, List.mem_cons]
    by_cases same : compare key head.1 = .eq
    · have equal : key = head.1 := LawfulEqCmp.eq_of_compare same
      rw [if_pos same]
      constructor
      · intro h
        exact .inl (Prod.ext equal (Option.some.inj h).symm)
      · rintro (h | h)
        · exact congrArg some (congrArg Prod.snd h).symm
        · exact absurd (equal ▸ above _ h) (by simp)
    · rw [if_neg same, ih tail]
      constructor
      · exact .inr
      · rintro (h | h)
        · exact absurd (by simp [← h]) same
        · exact h

omit [TransOrd κ] in
/-- The view holds exactly the entries. -/
theorem get?_eq_some_iff {m : SortedMap κ β} {key : κ} {value : β} :
    m.get? key = some value ↔ (key, value) ∈ m.entries := lookup_eq_some m.ascending

omit [TransOrd κ] in
theorem mem_keys {m : SortedMap κ β} {key : κ} : key ∈ m.keys ↔ ∃ value, m.get? key = some value := by
  simp only [keys, List.mem_map, get?_eq_some_iff]
  constructor
  · rintro ⟨entry, member, rfl⟩
    exact ⟨entry.2, member⟩
  · rintro ⟨value, member⟩
    exact ⟨_, member, rfl⟩

omit [LawfulEqOrd κ] in
theorem nodup_keys (m : SortedMap κ β) : m.keys.Nodup :=
  List.pairwise_map.mpr (m.ascending.imp fun below same => by simp [same] at below)

theorem get?_insert [DecidableEq κ] {m : SortedMap κ β} {key other : κ} {value : β} :
    (m.insert key value).get? other = if other = key then some value else m.get? other := lookup_place

omit [TransOrd κ] in
theorem get?_erase [DecidableEq κ] {m : SortedMap κ β} {key other : κ} :
    (m.erase key).get? other = if other = key then none else m.get? other := by
  apply Option.ext
  intro value
  rw [get?_eq_some_iff]
  by_cases h : other = key
  · subst h
    simp [erase]
  · have apart : key ≠ other := fun same => h same.symm
    simp [erase, h, apart, get?_eq_some_iff]

end SortedMap
end Formulary
