import Formulary.Proofs.GroundDelta

/-!
# The content of a delta

What the change between two documents consists of, whatever their texts
(`between_documents_exact`). A ground triple counts if only one document has it. A triple with a blank
node always counts, on either side, in the scope of its document, and no two of them become one.
-/

namespace Formulary
open Std

/-- The same ground triples, and no others. -/
def Graph.SameGround (before after : Graph) : Prop :=
  before.IsGround ∧ after.IsGround ∧ before = after

/-- The delta holds what each of two graphs has for its own. -/
structure Delta.IsExact (delta : Delta) (before after : Graph) : Prop where
  removed : ∀ t, t ∈ delta.removed ↔ before.Own after "old_" t
  added : ∀ t, t ∈ delta.added ↔ after.Own before "new_" t
  disjoint : ∀ t ∈ delta.removed, t ∉ delta.added
  changes : ¬ (delta.removed = ∅ ∧ delta.added = ∅)
  blankRemoved : (delta.removed.filter (·.hasBlank)).size = (before.filter (·.hasBlank)).size
  blankAdded : (delta.added.filter (·.hasBlank)).size = (after.filter (·.hasBlank)).size

namespace Graph

variable {mine other side before after : Graph} {scope : String}

theorem forall_not_own_iff : (∀ t, ¬ mine.Own other scope t) ↔
    mine.IsGround ∧ ∀ t ∈ mine, t ∈ other := by
  constructor
  · intro nothing
    have ground : mine.IsGround := fun t member => by
      by_contra blank
      exact nothing _ (.inr ⟨t, member, by simpa using blank, rfl⟩)
    refine ⟨ground, fun t member => ?_⟩
    by_contra missing
    exact nothing t (.inl ⟨ground t member, member, missing⟩)
  · rintro ⟨ground, within⟩ t (⟨-, member, missing⟩ | ⟨b, member, blank, -⟩)
    · exact missing (within t member)
    · exact absurd (blank.symm.trans (ground b member)) (by decide)

/-- Neither graph has anything for its own exactly if they are the same ground triples. -/
theorem sameGround_iff (one two : String) : before.SameGround after ↔
    (∀ t, ¬ before.Own after one t) ∧ ∀ t, ¬ after.Own before two t := by
  rw [forall_not_own_iff, forall_not_own_iff]
  constructor
  · rintro ⟨ground, -, rfl⟩
    exact ⟨⟨ground, fun _ member => member⟩, ground, fun _ member => member⟩
  · rintro ⟨⟨ground, within⟩, groundToo, back⟩
    exact ⟨ground, groundToo, SortedSet.ext_mem fun t => ⟨within t, back t⟩⟩

/-- No two triples with blank nodes become one in a scope. -/
theorem size_blank_own (members : ∀ t, t ∈ side ↔ mine.Own other scope t) :
    (side.filter (·.hasBlank)).size = (mine.filter (·.hasBlank)).size := by
  have image : side.filter (·.hasBlank) = (mine.filter (·.hasBlank)).map (·.inScope scope) := by
    refine SortedSet.ext_mem fun t => ?_
    rw [SortedSet.mem_filter, SortedSet.mem_map, members]
    constructor
    · rintro ⟨own, kind⟩
      obtain ⟨b, member, blank, rfl⟩ := (own_of_blank kind).mp own
      exact ⟨b, SortedSet.mem_filter.mpr ⟨member, blank⟩, rfl⟩
    · rintro ⟨b, member, rfl⟩
      obtain ⟨member, blank⟩ := SortedSet.mem_filter.mp member
      exact ⟨.inr ⟨b, member, blank, rfl⟩, Triple.hasBlank_inScope.trans blank⟩
  rw [image, SortedSet.size_map fun _ _ same => Triple.inScope_inj.mp same]

end Graph

namespace Compares

variable {delta : Delta} {before after : Graph}

theorem isEmpty_iff (compares : Compares delta before after) :
    delta.isEmpty ↔ before.SameGround after := by
  have nothing : ∀ side : Graph, side.isEmpty ↔ ∀ t, t ∉ side := fun side => by
    rw [SortedSet.isEmpty, List.isEmpty_iff, SortedSet.toList_eq_nil_iff]
  rw [Graph.sameGround_iff "old_" "new_", Delta.isEmpty, Bool.and_eq_true, nothing, nothing]
  simp only [compares.mem_removed_iff, compares.mem_added_iff]

theorem isExact (compares : Compares delta before after) (differ : ¬ before.SameGround after) :
    delta.IsExact before after where
  removed := compares.mem_removed_iff
  added := compares.mem_added_iff
  disjoint t removed added := ((compares.removed t).mp removed).2 ((compares.added t).mp added).1
  changes := by
    rintro ⟨noneRemoved, noneAdded⟩
    refine differ (compares.isEmpty_iff.mp ?_)
    rw [Delta.isEmpty, noneRemoved, noneAdded]
    rfl
  blankRemoved := Graph.size_blank_own compares.mem_removed_iff
  blankAdded := Graph.size_blank_own compares.mem_added_iff

end Compares

section
variable {format : Format} {old new : String} {target : Term}

/-- There is no change to tell exactly if one of the documents cannot be read. -/
theorem exists_error_between_iff : (∃ fault, Change.between format old new target = .error fault) ↔
    (∃ fault, Document.read format old = .error fault) ∨
      ∃ fault, Document.read format new = .error fault := by
  by_cases same : old = new
  · subst same
    rw [or_self, Change.between, if_pos rfl]
    cases Document.read format old with
    | error fault => exact ⟨fun _ => ⟨fault, rfl⟩, fun _ => ⟨fault, rfl⟩⟩
    | ok before => simp [bind, Except.bind, pure, Except.pure]
  · rw [Change.between, if_neg same, scopedSnapshot, scopedSnapshot]
    cases Document.read format old with
    | error fault => exact ⟨fun _ => .inl ⟨fault, rfl⟩, fun _ => ⟨fault, rfl⟩⟩
    | ok before =>
      cases Document.read format new with
      | error fault => exact ⟨fun _ => .inr ⟨fault, rfl⟩, fun _ => ⟨fault, rfl⟩⟩
      | ok after => simp [bind, Except.bind, pure, Except.pure]

end

/-- The change between two texts is an error exactly if one of them cannot be read. Otherwise there is
none exactly if the texts are equal or the documents are the same ground triples, and in all other
cases it is an update with just what each of the documents has for its own. -/
theorem between_documents_exact (format : Format) (old new : String) (target : Term) :
    ((∃ fault, Change.between format old new target = .error fault) ↔
      (∃ fault, Document.read format old = .error fault) ∨
        ∃ fault, Document.read format new = .error fault) ∧
    ∀ before after, Document.read format old = .ok before → Document.read format new = .ok after →
      (Change.between format old new target = .ok .none ↔
        old = new ∨ (before.graph none).SameGround (after.graph none)) ∧
      (¬ (old = new ∨ (before.graph none).SameGround (after.graph none)) → ∃ delta,
        Change.between format old new target = .ok (.update delta (delta.updateText target)) ∧
          delta.IsExact (before.graph none) (after.graph none)) := by
  refine ⟨exists_error_between_iff, fun before after readOld readNew => ?_⟩
  by_cases same : old = new
  · have outcome : Change.between format old new target = .ok .none := by
      rw [Change.between, if_pos same, readOld]
      rfl
    exact ⟨iff_of_true outcome (.inl same), fun differ => absurd (.inl same) differ⟩
  · obtain ⟨delta, compares, outcome⟩ := Change.exists_compares target same readOld readNew
    rw [outcome, or_iff_right same]
    by_cases sameGround : (before.graph none).SameGround (after.graph none)
    · rw [if_pos (compares.isEmpty_iff.mpr sameGround)]
      exact ⟨iff_of_true rfl sameGround, fun differ => absurd sameGround differ⟩
    · rw [if_neg (mt compares.isEmpty_iff.mp sameGround)]
      refine ⟨iff_of_false (fun same => ?_) sameGround, fun differ => ?_⟩
      · simp at same
      · exact ⟨delta, rfl, compares.isExact differ⟩

/-- Only the triple about the blank node goes, under its label in the scope of the old document. -/
theorem between_documents_exact_mixedText :
    Document.read .nTriples (mixedText "http://ex.org/q") =
      .ok (.ofGraph (.ofList (mixedTriples "http://ex.org/q"))) ∧
    Document.read .nTriples groundText = .ok (.ofGraph (.ofList [groundTriple])) ∧
    ∃ delta statement, Change.between .nTriples (mixedText "http://ex.org/q") groundText
        (.iri "http://ex.org/g") = .ok (.update delta statement) ∧
      ∀ t, t ∈ delta.removed ↔ t = ⟨.blank "old_x", .iri "http://ex.org/q", .plain "v"⟩ := by
  have readOld : Document.read .nTriples (mixedText "http://ex.org/q") =
      .ok (.ofGraph (.ofList (mixedTriples "http://ex.org/q"))) := rfl
  have about : (⟨.blank "x", .iri "http://ex.org/q", .plain "v"⟩ : Triple) ∈
      (Dataset.ofGraph (.ofList (mixedTriples "http://ex.org/q"))).graph none :=
    mem_mixedText.mpr (.inl rfl)
  refine ⟨readOld, read_groundText, ?_⟩
  obtain ⟨delta, changes, exact_⟩ := ((between_documents_exact .nTriples
    (mixedText "http://ex.org/q") groundText (.iri "http://ex.org/g")).2 _ _ readOld
      read_groundText).2 (by
        rintro (same | ⟨ground, -, -⟩)
        · exact absurd same (by decide)
        · exact absurd (ground _ about) (by decide))
  refine ⟨delta, _, changes, fun t => (exact_.removed t).trans ?_⟩
  constructor
  · rintro (⟨ground, member, missing⟩ | ⟨b, member, blank, rfl⟩)
    · rcases mem_mixedText.mp member with rfl | rfl
      · exact absurd ground (by decide)
      · exact absurd (mem_groundText.mpr rfl) missing
    · rcases mem_mixedText.mp member with rfl | rfl
      · rfl
      · exact absurd blank (by decide)
  · rintro rfl
    exact .inr ⟨_, about, rfl, rfl⟩

end Formulary
