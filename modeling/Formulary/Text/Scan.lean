/-!
# Scanning characters

What follows a fixed beginning of a text, and the pieces of a text between separators.
-/

namespace Formulary

/-- What follows the given beginning, if the text has it. -/
def after? : List Char → List Char → Option (List Char)
  | [], text => some text
  | _ :: _, [] => none
  | p :: lead, c :: text => if p = c then after? lead text else none

theorem after?_eq_some_iff {lead text rest : List Char} :
    after? lead text = some rest ↔ text = lead ++ rest := by
  induction lead generalizing text with
  | nil => simp [after?, eq_comm]
  | cons p lead ih =>
    cases text with
    | nil => simp [after?]
    | cons c text =>
      by_cases same : p = c
      · simp [after?, same, ih]
      · simp [after?, same, Ne.symm same]

/-- What stands before the first occurrence of a mark, and what follows it. -/
def cutAt? (mark : List Char) : List Char → Option (List Char × List Char)
  | [] => if mark.isEmpty then some ([], []) else none
  | c :: rest =>
    match after? mark (c :: rest) with
    | some tail => some ([], tail)
    | none => (cutAt? mark rest).map fun (before, tail) => (c :: before, tail)

theorem cutAt?_append {mark : Char} {before tail : List Char} (noMark : mark ∉ before) :
    cutAt? [mark] (before ++ mark :: tail) = some (before, tail) := by
  induction before with
  | nil => simp [cutAt?, after?]
  | cons c before ih =>
    obtain ⟨other, noMark⟩ : mark ≠ c ∧ mark ∉ before := by simpa using noMark
    simp [cutAt?, after?, other, ih noMark]

theorem eq_of_cutAt? {mark : Char} {text before tail : List Char}
    (cut : cutAt? [mark] text = some (before, tail)) : text = before ++ mark :: tail ∧ mark ∉ before := by
  induction text generalizing before with
  | nil => simp [cutAt?] at cut
  | cons c text ih =>
    by_cases same : mark = c
    · subst same
      obtain ⟨rfl, rfl⟩ : [] = before ∧ text = tail := by simpa [cutAt?, after?] using cut
      exact ⟨rfl, List.not_mem_nil⟩
    · obtain ⟨rest, found, rfl⟩ : ∃ rest, cutAt? [mark] text = some (rest, tail) ∧
          c :: rest = before := by
        simpa [cutAt?, after?, same] using cut
      obtain ⟨rfl, outside⟩ := ih found
      exact ⟨rfl, by simp [same, outside]⟩

/-- The pieces of a text between separators. -/
def pieces (isSeparator : Char → Bool) : List Char → List (List Char)
  | [] => [[]]
  | c :: rest =>
    match isSeparator c, pieces isSeparator rest with
    | true, others => [] :: others
    | false, [] => [[c]]
    | false, piece :: others => (c :: piece) :: others

section Pieces
variable {isSeparator : Char → Bool} {c : Char} {rest : List Char}

theorem pieces_ne_nil {text : List Char} : pieces isSeparator text ≠ [] := by
  fun_cases pieces isSeparator text <;> simp

theorem pieces_of_separator (separates : isSeparator c) :
    pieces isSeparator (c :: rest) = [] :: pieces isSeparator rest := by
  rw [pieces, separates]

/-- A character of another kind belongs to the first piece. -/
theorem exists_pieces_cons (rest : List Char) (other : isSeparator c = false) : ∃ piece others,
    pieces isSeparator rest = piece :: others ∧
    pieces isSeparator (c :: rest) = (c :: piece) :: others := by
  have occupied : pieces isSeparator rest ≠ [] := pieces_ne_nil
  obtain ⟨piece, others, made⟩ := List.exists_cons_of_ne_nil occupied
  exact ⟨piece, others, made, by rw [pieces, other, made]⟩

theorem pieces_append {piece : List Char} (plain : ∀ d ∈ piece, isSeparator d = false)
    (separates : isSeparator c) :
    pieces isSeparator (piece ++ c :: rest) = piece :: pieces isSeparator rest := by
  induction piece with
  | nil => exact pieces_of_separator separates
  | cons d piece ih =>
    obtain ⟨here, later⟩ := List.forall_mem_cons.mp plain
    rw [List.cons_append, pieces, here, ih later]

theorem isSeparator_or_mem_pieces (isSeparator : Char → Bool) {text : List Char}
    (member : c ∈ text) : isSeparator c ∨ ∃ piece ∈ pieces isSeparator text, c ∈ piece := by
  induction text with
  | nil => cases member
  | cons d rest ih =>
    cases separates : isSeparator d with
    | true =>
      rw [pieces_of_separator separates]
      rcases List.mem_cons.mp member with rfl | later
      · exact .inl separates
      · exact (ih later).imp_right fun ⟨piece, there, here⟩ =>
          ⟨piece, List.mem_cons_of_mem _ there, here⟩
    | false =>
      obtain ⟨first, others, made, extended⟩ := exists_pieces_cons rest separates
      rw [extended]
      rcases List.mem_cons.mp member with rfl | later
      · exact .inr ⟨_, List.mem_cons_self, List.mem_cons_self⟩
      · refine (ih later).imp_right ?_
        simp only [made, List.mem_cons, exists_eq_or_imp]
        exact .imp_left .inr

end Pieces

end Formulary
