import Formulary.Proofs.DocumentTriples
import Formulary.Proofs.Relabelling
import Formulary.Proofs.SnapshotDelta

/-!
# Removal of blank nodes

What a delta leaves of the triples with blank nodes. Their patterns have a variable for each blank
node, named after its label, but a label may have characters that no variable name has, and these
become underscores: the nodes `a-b` and `a_b` share a variable. Where all labels of a graph keep their
variables apart, the patterns match the triples that they were made of, and each of them goes. Where
two labels share a variable, the patterns may match nothing, and then all of them stay
(`mem_apply_iff_of_hasBlank`).
-/

namespace Formulary
open Std

/-- No two labels of a graph become the same in the names of variables. -/
def Graph.KeepsApart (g : Graph) : Prop :=
  g.labels.InjOn fun label => label.toList.map Delta.variableChar

/-- The variable of a blank node in the pattern that removes it. -/
def removalVariable (label : String) : Variable := Delta.blankVariable ("old_" ++ label)

theorem removalVariable_inj {a b : String} : removalVariable a = removalVariable b ↔
    a.toList.map Delta.variableChar = b.toList.map Delta.variableChar := by
  simp [removalVariable, Delta.blankVariable, String.ext_iff]

theorem Graph.KeepsApart.injOn {g : Graph} (apart : g.KeepsApart) : g.labels.InjOn removalVariable :=
  fun _ isLabel _ other same => apart isLabel other (removalVariable_inj.mp same)

/-- Labels of letters, digits and underscores are kept as they are. -/
theorem Graph.keepsApart_of_plain {g : Graph}
    (plain : ∀ label ∈ g.labels, ∀ c ∈ label.toList, c.isAlphanum ∨ c = '_') : g.KeepsApart := by
  have kept : ∀ label ∈ g.labels, label.toList.map Delta.variableChar = label.toList := by
    intro label isLabel
    refine (List.map_congr_left fun c member => ?_).trans (List.map_id _)
    rcases plain label isLabel c member with letter | rfl
    · simp [Delta.variableChar, letter]
    · rfl
  intro a isLabel b other same
  dsimp only at same
  rw [kept a isLabel, kept b other] at same
  exact String.toList_inj.mp same

section
variable {before after : Graph} {delta : Delta} {t : Triple}

/-- A valuation that gives each variable its blank node back makes each triple of its own pattern. -/
theorem image_patternOf_inScope {σ : Valuation}
    (mirror : ∀ label, t.subject = .blank label ∨ t.object = .blank label →
      σ (removalVariable label) = .blank label) :
    (Delta.patternOf (t.inScope "old_")).image σ = t := by
  have node : ∀ term : Term, (∀ label, term = .blank label → σ (removalVariable label) = .blank label) →
      (Delta.slotOf (term.inScope "old_")).under σ = term := by
    rintro (_ | label | _) given
    · rfl
    · exact given label rfl
    · rfl
  obtain ⟨subject, predicate, object⟩ := t
  have subjects := node subject fun label same => mirror label (.inl same)
  have objects := node object fun label same => mirror label (.inr same)
  simp only [Triple.inScope, Delta.patternOf, TriplePattern.image, subjects, objects]
  rfl

theorem Graph.KeepsApart.overmatched (apart : before.KeepsApart) (valid : ∀ t ∈ before, t.isValid)
    (member : t ∈ before) (blank : t.hasBlank) : Overmatched before after t := by
  let σ : Valuation := fun v => .blank (Function.invFunOn removalVariable before.labels v)
  have own : ∀ u ∈ before, (Delta.patternOf (u.inScope "old_")).image σ = u := by
    intro u there
    refine image_patternOf_inScope fun label place => ?_
    exact congrArg Term.blank (apart.injOn.leftInvOn_invFunOn ⟨u, there, place⟩)
  refine ⟨valid t member, σ, fun b there hasBlank => ?_, t, member, blank, own t member⟩
  rw [own b there]
  exact ⟨there, fun _ => hasBlank⟩

/-- Of the triples with blank nodes, those stay that the patterns do not match, and those of the new
graph come in. -/
theorem Compares.mem_graph_apply_of_hasBlank (compares : Compares delta before after) {data : Dataset}
    (start : data.graph none = before) (blank : t.hasBlank) :
    t ∈ (delta.apply data).graph none ↔
      (t ∈ before ∧ ¬ Overmatched before after t) ∨ ∃ u ∈ after, u.inScope "new_" = t := by
  have notGround : t ∉ delta.groundRemovals := fun removed =>
    absurd (blank.symm.trans (compares.mem_groundRemovals.mp removed).1) (by decide)
  have added : t ∈ delta.added ↔ ∃ u ∈ after, u.inScope "new_" = t := by
    rw [compares.added, and_iff_left_iff_imp]
    rintro ⟨u, -, rfl⟩ ⟨b, -, same⟩
    rw [← same, Triple.hasBlank_inScope] at blank
    exact Triple.inScope_ne scopesApart_snapshots blank same
  rw [Delta.mem_graph_apply, start, compares.finds_iff, added]
  tauto

end

/-! ### Two nodes -/

/-- A document with two blank nodes, the first one labelled `a-b`. -/
def pairText (label : String) : String :=
  "_:a-b <http://ex.org/p> \"1\" .\n_:" ++ label ++ " <http://ex.org/p> \"2\" .\n"

def pairTriples (label : String) : List Triple :=
  [⟨.blank "a-b", .iri "http://ex.org/p", .plain "1"⟩,
    ⟨.blank label, .iri "http://ex.org/p", .plain "2"⟩]

theorem mem_pairText {label : String} {t : Triple} :
    t ∈ (Dataset.ofGraph (.ofList (pairTriples label))).graph none ↔
      t = ⟨.blank "a-b", .iri "http://ex.org/p", .plain "1"⟩ ∨
      t = ⟨.blank label, .iri "http://ex.org/p", .plain "2"⟩ := by
  rw [Dataset.graph_ofGraph, if_pos rfl, SortedSet.mem_ofList, pairTriples, List.mem_cons,
    List.mem_singleton]

/-! ### What is left -/

/-- Of the triples with blank nodes, a delta between snapshots leaves those that the removal patterns
do not match, and adds those of the new snapshot. So the new ones alone are left exactly if each old
one is matched or comes in anew. This is so where the labels of the old snapshot keep their variables
apart, as labels of letters, digits and underscores do. -/
theorem mem_apply_iff_of_hasBlank {format : Format} {old new : String} {target : Term} {delta : Delta}
    {statement : String} {before after : Dataset}
    (changes : Change.between format old new target = .ok (.update delta statement))
    (readOld : Document.read format old = .ok before) (readNew : Document.read format new = .ok after) :
    (∀ t, t.hasBlank → (t ∈ (delta.apply before).graph none ↔
      (t ∈ before.graph none ∧ ¬ Overmatched (before.graph none) (after.graph none) t) ∨
        ∃ u ∈ after.graph none, u.inScope "new_" = t)) ∧
    ((∀ t, t.hasBlank → (t ∈ (delta.apply before).graph none ↔
        ∃ u ∈ after.graph none, u.inScope "new_" = t)) ↔
      ∀ b ∈ before.graph none, b.hasBlank → Overmatched (before.graph none) (after.graph none) b ∨
        ∃ u ∈ after.graph none, u.inScope "new_" = b) ∧
    ((before.graph none).KeepsApart → ∀ t, t.hasBlank →
      (t ∈ (delta.apply before).graph none ↔ ∃ u ∈ after.graph none, u.inScope "new_" = t)) ∧
    ((∀ label ∈ (before.graph none).labels, ∀ c ∈ label.toList, c.isAlphanum ∨ c = '_') →
      (before.graph none).KeepsApart) := by
  have compares := Change.compares changes readOld readNew
  have left : ∀ t, t.hasBlank → (t ∈ (delta.apply before).graph none ↔
      (t ∈ before.graph none ∧ ¬ Overmatched (before.graph none) (after.graph none) t) ∨
        ∃ u ∈ after.graph none, u.inScope "new_" = t) :=
    fun t blank => compares.mem_graph_apply_of_hasBlank rfl blank
  have alone : (∀ t, t.hasBlank → (t ∈ (delta.apply before).graph none ↔
        ∃ u ∈ after.graph none, u.inScope "new_" = t)) ↔
      ∀ b ∈ before.graph none, b.hasBlank → Overmatched (before.graph none) (after.graph none) b ∨
        ∃ u ∈ after.graph none, u.inScope "new_" = b := by
    constructor
    · intro gone b member blank
      by_contra neither
      obtain ⟨kept, notAgain⟩ := not_or.mp neither
      exact notAgain ((gone b blank).mp ((left b blank).mpr (.inl ⟨member, kept⟩)))
    · intro matched t blank
      rw [left t blank, or_iff_right_iff_imp]
      rintro ⟨member, kept⟩
      exact (matched t member blank).resolve_left kept
  refine ⟨left, alone, fun apart => alone.mpr fun b member blank => .inl ?_,
    Graph.keepsApart_of_plain⟩
  exact apart.overmatched (Document.isValid_of_read readOld) member blank

/-- Nodes with variables of their own are gone. -/
theorem mem_apply_iff_of_hasBlank_pairText : ∃ delta statement,
    Change.between .nTriples (pairText "c") groundText (.iri "http://ex.org/g") =
      .ok (.update delta statement) ∧
    Document.read .nTriples (pairText "c") = .ok (.ofGraph (.ofList (pairTriples "c"))) ∧
    Document.read .nTriples groundText = .ok (.ofGraph (.ofList [groundTriple])) ∧
    ∀ t, t.hasBlank →
      t ∉ (delta.apply (.ofGraph (.ofList (pairTriples "c")))).graph none := by
  have readOld : Document.read .nTriples (pairText "c") =
      .ok (.ofGraph (.ofList (pairTriples "c"))) := rfl
  have different : pairText "c" ≠ groundText := by decide
  obtain ⟨delta, statement, changes⟩ : ∃ delta statement, Change.between .nTriples
      (pairText "c") groundText (.iri "http://ex.org/g") = .ok (.update delta statement) :=
    Change.exists_update different readOld read_groundText (mem_pairText.mpr (.inl rfl)) rfl
  have labels : ∀ label ∈ Graph.labels ((Dataset.ofGraph (.ofList (pairTriples "c"))).graph none),
      label = "a-b" ∨ label = "c" := by
    rintro label ⟨t, member, place⟩
    rcases mem_pairText.mp member with rfl | rfl
    · exact .inl (by simpa [Term.plain, eq_comm] using place)
    · exact .inr (by simpa [Term.plain, eq_comm] using place)
  have apart : Graph.KeepsApart ((Dataset.ofGraph (.ofList (pairTriples "c"))).graph none) := by
    intro a isLabel b other same
    rcases labels a isLabel with rfl | rfl <;> rcases labels b other with rfl | rfl
    · rfl
    · exact absurd same (by decide)
    · exact absurd same (by decide)
    · rfl
  refine ⟨delta, statement, changes, readOld, read_groundText, fun t blank there => ?_⟩
  obtain ⟨u, member, rfl⟩ := ((mem_apply_iff_of_hasBlank changes readOld read_groundText).2.2.1
    apart t blank).mp there
  rw [mem_groundText.mp member] at blank
  exact absurd blank (by decide)

/-- Two nodes with one variable stay, since no node has both of their values. -/
theorem stale_nodes_left : ¬ ∀ (format : Format) (old new : String) (target : Term) (delta : Delta)
    (statement : String) (before after : Dataset),
    Change.between format old new target = .ok (.update delta statement) →
    Document.read format old = .ok before → Document.read format new = .ok after →
    ∀ t, t.hasBlank → (t ∈ (delta.apply before).graph none ↔
      ∃ u ∈ after.graph none, u.inScope "new_" = t) := by
  intro gone
  have readOld : Document.read .nTriples (pairText "a_b") =
      .ok (.ofGraph (.ofList (pairTriples "a_b"))) := rfl
  have different : pairText "a_b" ≠ groundText := by decide
  obtain ⟨delta, statement, changes⟩ : ∃ delta statement, Change.between .nTriples
      (pairText "a_b") groundText (.iri "http://ex.org/g") = .ok (.update delta statement) :=
    Change.exists_update different readOld read_groundText (mem_pairText.mpr (.inl rfl)) rfl
  have compares := Change.compares changes readOld read_groundText
  let first : Triple := ⟨.blank "a-b", .iri "http://ex.org/p", .plain "1"⟩
  let second : Triple := ⟨.blank "a_b", .iri "http://ex.org/p", .plain "2"⟩
  have there : first ∈ (delta.apply (.ofGraph (.ofList (pairTriples "a_b")))).graph none := by
    refine (compares.mem_graph_apply_of_hasBlank rfl rfl).mpr (.inl ⟨mem_pairText.mpr (.inl rfl), ?_⟩)
    rintro ⟨-, σ, holds, -⟩
    have shared : removalVariable "a-b" = removalVariable "a_b" := by decide
    have one : σ (removalVariable "a-b") = .blank "a-b" := by
      rcases mem_pairText.mp (holds first (mem_pairText.mpr (.inl rfl)) rfl).1 with same | same
      · exact congrArg Triple.subject same
      · have values : Term.plain "1" = .plain "2" := congrArg Triple.object same
        exact absurd values (by decide)
    have two : σ (removalVariable "a_b") = .blank "a_b" := by
      rcases mem_pairText.mp (holds second (mem_pairText.mpr (.inr rfl)) rfl).1 with same | same
      · have values : Term.plain "2" = .plain "1" := congrArg Triple.object same
        exact absurd values (by decide)
      · exact congrArg Triple.subject same
    rw [← shared, one] at two
    exact absurd two (by decide)
  obtain ⟨u, member, same⟩ := (gone _ _ _ _ _ _ _ _ changes readOld read_groundText first rfl).mp there
  rw [mem_groundText.mp member] at same
  exact absurd same (by decide)

end Formulary
