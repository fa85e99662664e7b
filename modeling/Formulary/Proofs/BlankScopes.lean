import Formulary.Term

/-!
# Scopes of blank nodes

Triples of two documents are brought together with the blank nodes of each in a scope of its own. A
scope is only written before the label, and so keeps apart what was apart; two scopes neither of which
starts the other never give two nodes the same label, whatever their labels were (`scopesApart_iff`).
What one document has for its own is then the difference of the two (`Graph.own_iff`).
-/

namespace Formulary

/-- No label in the first scope is one in the second. -/
def ScopesApart (one two : String) : Prop := ∀ label other : String, one ++ label ≠ two ++ other

theorem ScopesApart.symm {one two : String} (apart : ScopesApart one two) : ScopesApart two one :=
  fun label other same => apart other label same.symm

/-- Scopes are apart exactly if neither is the beginning of the other, whatever the labels begin
with. -/
theorem scopesApart_iff {one two : String} :
    ScopesApart one two ↔ ¬ one.toList <+: two.toList ∧ ¬ two.toList <+: one.toList := by
  constructor
  · -- What one scope has more than the other is a label that gives both nodes one name.
    intro apart
    constructor
    · rintro ⟨more, whole⟩
      exact apart (String.ofList more) "" (String.toList_injective (by simpa using whole))
    · rintro ⟨more, whole⟩
      exact apart "" (String.ofList more) (String.toList_injective (by simpa using whole.symm))
  · rintro ⟨first, second⟩ label other same
    have whole : one.toList ++ label.toList = two.toList ++ other.toList := by
      rw [← String.toList_append, same, String.toList_append]
    have here : one.toList <+: two.toList ++ other.toList := ⟨_, whole⟩
    rcases List.prefix_or_prefix_of_prefix here (List.prefix_append _ _) with within | within
    · exact first within
    · exact second within

/-- The scopes of the two snapshots of a document. -/
theorem scopesApart_snapshots : ScopesApart "old_" "new_" := scopesApart_iff.mpr (by decide)

/-- The scopes of the two schemas that are merged. -/
theorem scopesApart_schemas : ScopesApart "base_" "ext_" := scopesApart_iff.mpr (by decide)

namespace Term

variable {scope one two : String} {a b : Term}

@[simp] theorem isBlank_inScope : (a.inScope scope).isBlank = a.isBlank := by cases a <;> rfl

theorem inScope_inj : a.inScope scope = b.inScope scope ↔ a = b := by
  cases a <;> cases b <;> simp [inScope]

theorem inScope_of_isIri (isIri : a.isIri) : a.inScope scope = a := by
  obtain ⟨value, rfl⟩ := exists_iri_of_isIri isIri
  rfl

/-- Only an IRI itself becomes that IRI. -/
theorem inScope_eq_iff (isIri : b.isIri) : a.inScope scope = b ↔ a = b := by
  constructor
  · rintro rfl
    cases a with
    | iri value => rfl
    | blank label => exact absurd isIri nofun
    | literal value => rfl
  · rintro rfl
    exact inScope_of_isIri isIri

theorem inScope_ne (apart : ScopesApart one two) (blank : a.isBlank) :
    a.inScope one ≠ b.inScope two := by
  intro same
  obtain ⟨label, rfl⟩ := exists_blank_of_isBlank blank
  cases b with
  | blank other => exact apart label other (Term.blank.inj same)
  | iri value => simp [inScope] at same
  | literal value => simp [inScope] at same

end Term

namespace Triple

variable {scope one two : String} {t u : Triple}

theorem hasBlank_inScope : (t.inScope scope).hasBlank = t.hasBlank := by
  simp [hasBlank, inScope]

theorem inScope_inj : t.inScope scope = u.inScope scope ↔ t = u := by
  obtain ⟨s, p, o⟩ := t
  obtain ⟨s', p', o'⟩ := u
  simp only [inScope, Triple.mk.injEq, Term.inScope_inj]

theorem inScope_of_ground (ground : t.hasBlank = false) : t.inScope scope = t := by
  obtain ⟨_ | _ | _, _, _ | _ | _⟩ := t <;> simp_all [hasBlank, inScope, Term.isBlank, Term.inScope]

theorem exists_inScope_iff {g : Graph} (ground : t.hasBlank = false) :
    (∃ u ∈ g, u.inScope scope = t) ↔ t ∈ g := by
  constructor
  · rintro ⟨u, member, rfl⟩
    rw [hasBlank_inScope] at ground
    rwa [inScope_of_ground ground]
  · exact fun member => ⟨t, member, inScope_of_ground ground⟩

theorem inScope_ne (apart : ScopesApart one two) (blank : t.hasBlank) :
    t.inScope one ≠ u.inScope two := by
  intro same
  obtain ⟨subjects, -, objects⟩ := Triple.mk.inj same
  rcases Bool.or_eq_true_iff.mp blank with subject | object
  · exact Term.inScope_ne apart subject subjects
  · exact Term.inScope_ne apart object objects

end Triple

/-- What one of two graphs has for its own: ground triples that the other one has not, and all of its
triples with blank nodes, in a scope. -/
def Graph.Own (mine other : Graph) (scope : String) (t : Triple) : Prop :=
  t.hasBlank = false ∧ t ∈ mine ∧ t ∉ other ∨ ∃ b ∈ mine, b.hasBlank ∧ b.inScope scope = t

namespace Graph

variable {mine other : Graph} {scope one two : String} {t : Triple}

theorem own_of_ground (ground : t.hasBlank = false) :
    mine.Own other scope t ↔ t ∈ mine ∧ t ∉ other := by
  have noBlank : ¬ ∃ b ∈ mine, b.hasBlank ∧ b.inScope scope = t := by
    rintro ⟨b, -, blank, rfl⟩
    rw [Triple.hasBlank_inScope, blank] at ground
    exact absurd ground (by decide)
  rw [Own, or_iff_left noBlank, and_iff_right ground]

theorem own_of_blank (blank : t.hasBlank) :
    mine.Own other scope t ↔ ∃ b ∈ mine, b.hasBlank ∧ b.inScope scope = t := by
  rw [Own, or_iff_right]
  rintro ⟨ground, -⟩
  exact absurd (blank.symm.trans ground) (by decide)

/-- Where the scopes are apart, this is what the one graph has in its scope and the other has not. -/
theorem own_iff (apart : ScopesApart one two) : mine.Own other one t ↔
    (∃ u ∈ mine, u.inScope one = t) ∧ ¬ ∃ u ∈ other, u.inScope two = t := by
  cases kind : t.hasBlank with
  | false =>
    rw [own_of_ground kind, Triple.exists_inScope_iff kind, Triple.exists_inScope_iff kind]
  | true =>
    rw [own_of_blank kind]
    constructor
    · rintro ⟨b, member, blank, rfl⟩
      refine ⟨⟨b, member, rfl⟩, ?_⟩
      rintro ⟨u, -, same⟩
      exact Triple.inScope_ne apart blank same.symm
    · rintro ⟨⟨b, member, rfl⟩, -⟩
      exact ⟨b, member, Triple.hasBlank_inScope ▸ kind, rfl⟩

end Graph
end Formulary
