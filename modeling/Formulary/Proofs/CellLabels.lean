import Formulary.Field
import Mathlib.Logic.Function.Basic
import Std.Data.String.ToNat

/-!
# Labels of list cells

What the labels of a written list tell. A digest is read back from its text, and all of these texts are
equally long, so that a label tells the digest of the field that it was made for, whether it is the
label of a cell or of a step back, and the place in the list.
-/

namespace Formulary

/-! ## The text of a digest -/

theorem hexNumber?_concat (digits : List Char) (c : Char) : hexNumber? (digits ++ [c]) =
    (hexNumber? digits).bind fun n => (hexValue? c).map (16 * n + ·) := by
  simp [hexNumber?, List.foldlM_append]

theorem hexValue?_digitChar : ∀ d < 16, hexValue? (Nat.digitChar d) = some d := by decide

theorem hexNumber?_toDigits (n : Nat) : hexNumber? (Nat.toDigits 16 n) = some n := by
  induction n using Nat.strongRecOn with
  | ind n ih =>
    rw [Nat.toDigits_eq_if (by decide)]
    split
    · next small =>
      have single := hexNumber?_concat [] n.digitChar
      rw [hexValue?_digitChar n small] at single
      simpa [hexNumber?] using single
    · next large =>
      rw [hexNumber?_concat, ih (n / 16) (by omega), hexValue?_digitChar _ (by omega)]
      simp only [Option.bind_some, Option.map_some, Option.some.injEq]
      omega

theorem hexNumber?_zeros (count : Nat) (digits : List Char) :
    hexNumber? (List.replicate count '0' ++ digits) = hexNumber? digits := by
  induction count with
  | zero => rfl
  | succ count ih =>
    rw [List.replicate_succ, List.cons_append, ← ih]
    rfl

namespace Digest

/-- The text of a digest is read as the digest. -/
theorem hexNumber?_text (digest : UInt64) :
    hexNumber? (text digest).toList = some digest.toNat := by
  simp [text, hexNumber?_zeros, hexNumber?_toDigits]

theorem text_injective : Function.Injective text := fun one two same => by
  have read := hexNumber?_text one
  rw [same, hexNumber?_text two] at read
  exact UInt64.toNat_inj.mp (Option.some.inj read).symm

theorem length_text (digest : UInt64) : (text digest).length = 16 := by
  have fits : (Nat.toDigits 16 digest.toNat).length ≤ 16 :=
    (Nat.length_toDigits_le_iff (by decide) (by decide)).mpr digest.toNat_lt
  simp only [text, String.length_ofList, List.length_append, List.length_replicate]
  omega

end Digest

namespace FieldDefinition

/-! ## Labels -/

variable {field other : Term} {i j : Nat}

theorem stem_eq_iff :
    stem field = stem other ↔ Digest.ofText field.text = Digest.ofText other.text := by
  rw [stem, stem, String.append_right_inj, Digest.text_injective.eq_iff]

/-- All stems are equally long, so that a label tells its stem. -/
theorem stem_of_label {rest more : String}
    (same : Term.blank (stem field ++ rest) = .blank (stem other ++ more)) :
    stem field = stem other ∧ rest = more := by
  have lengths : (stem field).toList.length = (stem other).toList.length := by
    simp only [stem, String.length_toList, String.length_append, Digest.length_text]
  have texts := congrArg String.toList (Term.blank.inj same)
  rw [String.toList_append, String.toList_append] at texts
  obtain ⟨stems, rests⟩ := List.append_inj texts lengths
  exact ⟨String.toList_injective stems, String.toList_injective rests⟩

theorem eq_of_numbered {lead : String}
    (same : Term.blank (lead ++ toString i) = .blank (lead ++ toString j)) : i = j := by
  have numbers := (String.append_right_inj lead).mp (Term.blank.inj same)
  rw [Nat.toString_eq_repr, Nat.toString_eq_repr] at numbers
  exact Nat.repr_injective numbers

theorem cell_inj : cell field i = cell field j ↔ i = j := ⟨eq_of_numbered, congrArg (cell field)⟩

theorem stepNode_inj : stepNode field i = stepNode field j ↔ i = j :=
  ⟨eq_of_numbered, congrArg (stepNode field)⟩

/-- No cell is the element of a step back, of whatever field. -/
theorem cell_ne_stepNode : cell field i ≠ stepNode other j := fun same => by
  rw [cell, stepNode, String.append_assoc, String.append_assoc] at same
  have marks := congrArg String.toList (stem_of_label same).2
  rw [String.toList_append, String.toList_append] at marks
  exact absurd (List.cons.inj marks).1 (by decide)

end FieldDefinition
end Formulary
