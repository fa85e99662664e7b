import Formulary.InstanceQuery
import Std.Data.String.ToNat

/-!
# Variables of fields

The variables that an instance query makes up are told apart by the number of the field, the number
of the node and what the variable stands for.
-/

namespace Formulary.InstanceQuery
open Std

/-! ## Numbers in names -/

/-- Whether a text goes on with something other than a digit. -/
def EndsNumber (rest : List Char) : Prop := rest.takeWhile Char.isDigit = []

theorem isDigit_of_mem_number {n : Nat} {c : Char} (member : c ∈ (toString n).toList) : c.isDigit := by
  rw [Nat.toString_eq_repr, Nat.toList_repr] at member
  exact Nat.isDigit_of_mem_toDigits (by decide) (by decide) member

/-- A number in front of such a text can be read off. -/
theorem number_append_inj {m n : Nat} {one two : List Char} (endsOne : EndsNumber one)
    (endsTwo : EndsNumber two)
    (same : (toString m).toList ++ one = (toString n).toList ++ two) : m = n ∧ one = two := by
  have read : ∀ (k : Nat) (rest : List Char), EndsNumber rest →
      ((toString k).toList ++ rest).takeWhile Char.isDigit = (toString k).toList := by
    intro k rest ends
    rw [List.takeWhile_append_of_pos fun _ => isDigit_of_mem_number, ends, List.append_nil]
  have numbers : (toString m).toList = (toString n).toList := by
    rw [← read m one endsOne, ← read n two endsTwo, same]
  refine ⟨Nat.repr_injective ?_, List.append_cancel_left (numbers ▸ same)⟩
  rw [← Nat.toString_eq_repr, ← Nat.toString_eq_repr, String.toList_inj.mp numbers]

/-! ## The three variables of a node -/

/-- What a variable of a field stands for: a node, its identifier or its type. -/
inductive NodePart where
  | self
  | uuid
  | type
deriving DecidableEq

/-- What is written after the name of the node. -/
def NodePart.ending : NodePart → String
  | .self => ""
  | .uuid => "_uuid"
  | .type => "_type"

/-- The variable for a part of a node. -/
def partOf (part : NodePart) (index hop : Nat) : Variable :=
  ⟨(node index hop).name ++ part.ending⟩

theorem partOf_self (index hop : Nat) : partOf .self index hop = node index hop := by
  rw [partOf, NodePart.ending, String.append_empty]

theorem toList_partOf (part : NodePart) (index hop : Nat) :
    (partOf part index hop).name.toList = "field".toList ++ ((toString index).toList ++
      ("_node".toList ++ ((toString hop).toList ++ part.ending.toList))) := by
  simp only [partOf, node, String.toList_append, List.append_assoc]

private theorem endsNumber_ending (part : NodePart) : EndsNumber part.ending.toList := by
  cases part <;> simp [EndsNumber, NodePart.ending]

private theorem endsNumber_node (rest : List Char) : EndsNumber ("_node".toList ++ rest) := by
  simp [EndsNumber]

/-- A variable of a field determines the field, the node and the part. -/
theorem partOf_inj {part part' : NodePart} {index index' hop hop' : Nat} :
    partOf part index hop = partOf part' index' hop' ↔
      part = part' ∧ index = index' ∧ hop = hop' := by
  constructor
  · intro same
    have lists := congrArg (fun v : Variable => v.name.toList) same
    simp only [toList_partOf] at lists
    obtain ⟨indices, rest⟩ := number_append_inj (endsNumber_node _) (endsNumber_node _)
      (List.append_cancel_left lists)
    obtain ⟨hops, endings⟩ := number_append_inj (endsNumber_ending part) (endsNumber_ending part')
      (List.append_cancel_left rest)
    refine ⟨?_, indices, hops⟩
    cases part <;> cases part' <;> simp [NodePart.ending] at endings ⊢
  · rintro ⟨rfl, rfl, rfl⟩
    rfl

/-- The variable for the time of the last change. -/
def modified : Variable := ⟨"modified"⟩

theorem modified_ne_partOf (part : NodePart) (index hop : Nat) : modified ≠ partOf part index hop := by
  intro same
  have lists := congrArg (fun v : Variable => v.name.toList.head?) same
  simp only [toList_partOf] at lists
  exact absurd lists (by simp [modified])

/-- The variables that an instance query makes up. -/
def IsGenerated (v : Variable) : Prop :=
  v = modified ∨ ∃ part index hop, v = partOf part index hop

/-- A generated name starts with one of two letters. -/
theorem head?_of_isGenerated {v : Variable} (generated : IsGenerated v) :
    v.name.toList.head? = some 'm' ∨ v.name.toList.head? = some 'f' := by
  rcases generated with rfl | ⟨part, index, hop, rfl⟩
  · exact .inl (by simp [modified])
  · exact .inr (by simp [toList_partOf])

end Formulary.InstanceQuery
