import Formulary.Proofs.BlankScopes
import Formulary.Proofs.SchemaFolding

/-!
# The identity of a merged schema

What a merged schema says of the extension and of the form that it extends
(`merge_adopts_identity`). A value that the extension sets replaces those of the form; one that it
leaves open is the form's. The identifier is the extension's own. The form is no subject any more, and
only the extension leads to it.
-/

namespace Formulary
open Std

/-! ## Folding at the two subjects -/

namespace Term

variable {a b : Term}

/-- The term, or the extension in the place of the form. -/
def standIn (a form uri : Term) : Term := if a = form then uri else a

variable {form uri : Term}

@[simp] theorem standIn_self : form.standIn form uri = uri := if_pos rfl

theorem standIn_of_ne (apart : a ≠ form) : a.standIn form uri = a := if_neg apart

theorem standIn_ne (apart : uri ≠ form) : a.standIn form uri ≠ form := by
  by_cases same : a = form
  · rwa [same, standIn_self]
  · rwa [standIn_of_ne same]

theorem standIn_eq_iff_of_ne (other : uri ≠ b) : a.standIn form uri = b ↔ a = b ∧ a ≠ form := by
  by_cases same : a = form
  · simp [same, other]
  · simp [same, standIn_of_ne same]

theorem standIn_eq_iff : a.standIn form uri = uri ↔ a = form ∨ a = uri := by
  by_cases same : a = form
  · simp [same]
  · simp [same, standIn_of_ne same]

end Term

namespace Triple

variable {form uri object : Term} {t : Triple} {predicate : String}

@[simp] theorem subject_regrouped : t.regrouped.subject = t.subject := by rw [regrouped]; split <;> rfl

@[simp] theorem subject_promoted : (t.promoted uri).subject = t.subject := by
  rw [promoted]; split <;> rfl

@[simp] theorem predicate_promoted : (t.promoted uri).predicate = t.predicate := by
  rw [promoted]; split <;> rfl

theorem resubjected_eq :
    t.resubjected form uri = ⟨t.subject.standIn form uri, t.predicate, t.object⟩ := by
  rw [resubjected, Term.standIn]; split <;> rfl

@[simp] theorem predicate_resubjected : (t.resubjected form uri).predicate = t.predicate := by
  rw [resubjected_eq]

@[simp] theorem subject_relinked : (t.relinked form uri).subject = t.subject := by
  rw [relinked]; split <;> rfl

@[simp] theorem predicate_relinked : (t.relinked form uri).predicate = t.predicate := by
  rw [relinked]; split <;> rfl

theorem subject_folded : (t.folded form uri).subject = t.subject.standIn form uri := by
  rw [folded, subject_relinked, resubjected_eq, subject_promoted, subject_regrouped]

/-- Only the link to the extended form still leads to it. -/
theorem relinked_eq_of_object (apart : uri ≠ form) (object : (t.relinked form uri).object = form) :
    t.relinked form uri = ⟨uri, .iri Ext.extendsForm, form⟩ := by
  rw [relinked] at object ⊢
  split at object
  · exact absurd object apart
  · rename_i kept
    obtain ⟨rfl, verb⟩ := not_not.mp (not_and.mp kept object)
    rw [if_neg kept, ← object, ← verb]

/-- The predicates by which a form is described and identified are not those that folding changes or
looks for. -/
theorem apart_of_describes (describes : predicate ∈ Mu.uuid :: replaceable) :
    predicate ≠ Ext.extendsGroup ∧ predicate ≠ Sh.group ∧ predicate ≠ Rdf.type ∧
      predicate ≠ Ext.extendsForm := by
  revert predicate
  decide

/-- Folding keeps a predicate other than that of extending a group. -/
theorem predicate_folded_of_ne (noGroup : t.predicate ≠ .iri Ext.extendsGroup) :
    (t.folded form uri).predicate = t.predicate := by
  simp [folded, regrouped, noGroup]

/-- Only membership of a group is a predicate that folding makes. -/
theorem predicate_of_folded (verb : (t.folded form uri).predicate = .iri predicate)
    (noGroup : predicate ≠ Sh.group) : t.predicate = .iri predicate := by
  by_cases groups : t.predicate = .iri Ext.extendsGroup
  · have group : (t.folded form uri).predicate = .iri Sh.group := by simp [folded, regrouped, groups]
    exact absurd (Term.iri.inj (verb.symm.trans group)) noGroup
  · rwa [predicate_folded_of_ne groups] at verb

/-- Folding any other triple than a link of the extension does no more than make the extension a form
and let it stand in for the form that it extends. -/
theorem folded_of_unlinked (noGroup : t.predicate ≠ .iri Ext.extendsGroup)
    (noLink : ¬(t.subject.standIn form uri = uri ∧ t.predicate = .iri Ext.extendsForm)) :
    t.folded form uri =
      ⟨t.subject.standIn form uri, t.predicate, (t.promoted uri).object.standIn form uri⟩ := by
  have regrouped : t.regrouped = t := if_neg noGroup
  rw [folded, regrouped, resubjected_eq, subject_promoted, predicate_promoted, relinked]
  by_cases leads : (t.promoted uri).object = form
  · rw [if_pos ⟨leads, noLink⟩, leads, Term.standIn_self]
  · rw [if_neg fun both => leads both.1, Term.standIn_of_ne leads]

/-- Folding a triple that describes a subject does no more than let the extension stand in for the
form. -/
theorem folded_of_describes (describes : predicate ∈ Mu.uuid :: replaceable)
    (verb : t.predicate = .iri predicate) :
    t.folded form uri = ⟨t.subject.standIn form uri, .iri predicate, t.object.standIn form uri⟩ := by
  obtain ⟨noGroup, -, noType, noLink⟩ := apart_of_describes describes
  have promoted : t.promoted uri = t := if_neg fun same => noType <| by
    simpa [verb] using congrArg Triple.predicate same
  rw [folded_of_unlinked (by simpa [verb] using noGroup) (by simp [verb, noLink]), promoted, verb]

/-- What describes the extension after folding has described it or the form before. -/
theorem folded_eq_iff (describes : predicate ∈ Mu.uuid :: replaceable) :
    t.folded form uri = ⟨uri, .iri predicate, object⟩ ↔
      (t.subject = form ∨ t.subject = uri) ∧ t.predicate = .iri predicate ∧
        t.object.standIn form uri = object := by
  constructor
  · intro same
    have verb : t.predicate = .iri predicate :=
      predicate_of_folded (congrArg Triple.predicate same) (apart_of_describes describes).2.1
    rw [folded_of_describes describes verb] at same
    obtain ⟨subjects, -, objects⟩ := Triple.mk.inj same
    exact ⟨Term.standIn_eq_iff.mp subjects, verb, objects⟩
  · rintro ⟨subjects, verb, rfl⟩
    rw [folded_of_describes describes verb, Term.standIn_eq_iff.mpr subjects]

end Triple

/-! ## What is carried over -/

/-- The object that the merge makes of an object: blank nodes are kept apart, and the extension stands
in for the form. -/
def Term.carried (a : Term) (scope : String) (form uri : Term) : Term :=
  (a.inScope scope).standIn form uri

/-- The schema gives a subject a value from which the merge makes the object. -/
def Dataset.Carries (d : Dataset) (scope : String) (form uri subject : Term) (predicate : String)
    (object : Term) : Prop :=
  ∃ value, ⟨subject, .iri predicate, value⟩ ∈ d.graph none ∧ value.carried scope form uri = object

/-- Two schemas in their default graphs, of which one extends a form under an identifier of its own
that the other says nothing of. -/
structure Extends (base extension : Dataset) (form uri : Term) : Prop where
  declared : extension.extendedForm uri = .ok form
  isIri : uri.isIri
  apart : uri ≠ form
  plain : ∀ name, ∀ t ∈ base.graph name, name = none
  plainExtension : ∀ name, ∀ t ∈ extension.graph name, name = none
  unnamed : ∀ t ∈ base.graph none, t.subject ≠ uri

/-- What is said of an IRI is said of it in any scope. -/
theorem Dataset.exists_inScope_iff {d : Dataset} {scope : String} {subject predicate object : Term}
    (plain : ∀ name, ∀ t ∈ d.graph name, name = none) (isIri : subject.isIri) :
    (∃ name, ∃ s ∈ d.graph name, s.inScope scope = ⟨subject, predicate, object⟩) ↔
      ∃ value, ⟨subject, predicate, value⟩ ∈ d.graph none ∧ value.inScope scope = object := by
  constructor
  · rintro ⟨name, ⟨a, verb, value⟩, member, same⟩
    obtain ⟨subjects, rfl, rfl⟩ := Triple.mk.inj same
    obtain rfl := (Term.inScope_eq_iff isIri).mp subjects
    obtain rfl := plain name _ member
    exact ⟨value, member, rfl⟩
  · rintro ⟨value, member, rfl⟩
    exact ⟨none, _, member, by rw [Triple.inScope, Term.inScope_of_isIri isIri]⟩

theorem Dataset.eq_none_of_mem_ofGraph {g : Graph} {name : GraphName} {t : Triple}
    (member : t ∈ (ofGraph g).graph name) : name = none := by
  rw [graph_ofGraph] at member
  by_cases default : name = none
  · exact default
  · rw [if_neg default] at member
    exact absurd member SortedSet.not_mem_empty

namespace Extends

variable {base extension : Dataset} {form uri subject object : Term} {predicate : String}

/-- Kept triples about the extension or the form stem from either schema. The form's are kept unless
they identify it or the extension sets the value itself. -/
theorem kept_iff (extending : Extends base extension form uri) (isIri : subject.isIri) :
    Kept base extension form uri ⟨subject, .iri predicate, object⟩ ↔
      ((∃ value, ⟨subject, .iri predicate, value⟩ ∈ base.graph none ∧
          value.inScope "base_" = object) ∨
        ∃ value, ⟨subject, .iri predicate, value⟩ ∈ extension.graph none ∧
          value.inScope "ext_" = object) ∧
      (subject = form → predicate ≠ Mu.uuid ∧ (predicate ∈ replaceable →
        ∀ value, ⟨uri, .iri predicate, value⟩ ∉ extension.graph none)) := by
  rw [← Dataset.exists_inScope_iff extending.plain isIri,
    ← Dataset.exists_inScope_iff extending.plainExtension isIri]
  constructor
  · rintro ⟨loaded, unidentified, unset⟩
    refine ⟨loaded, ?_⟩
    rintro rfl
    exact ⟨fun same => unidentified ⟨rfl, congrArg Term.iri same⟩,
      fun listed value sets => unset predicate listed ⟨value, sets⟩ ⟨rfl, rfl⟩⟩
  · rintro ⟨loaded, kept⟩
    refine ⟨loaded, ?_, ?_⟩
    · rintro ⟨same, verb⟩
      exact (kept same).1 (Term.iri.inj verb)
    · rintro other listed ⟨value, sets⟩ ⟨same, verb⟩
      obtain rfl := Term.iri.inj verb
      exact (kept same).2 listed value sets

/-- The objects of a predicate that describes the extension in the merged schema. -/
theorem mem_folded_iff (extending : Extends base extension form uri)
    (describes : predicate ∈ Mu.uuid :: replaceable) :
    ⟨uri, .iri predicate, object⟩ ∈
        (base.loadedWith extension none).folded (extension.graph none) form uri ↔
      extension.Carries "ext_" form uri uri predicate object ∨
        (predicate ≠ Mu.uuid ∧ (predicate ∈ replaceable →
          ∀ value, ⟨uri, .iri predicate, value⟩ ∉ extension.graph none)) ∧
        (base.Carries "base_" form uri form predicate object ∨
          extension.Carries "ext_" form uri form predicate object) := by
  have formIsIri := (Dataset.extendedForm_eq_ok.mp extending.declared).2
  simp only [Dataset.mem_loadedWith_folded, Triple.folded_eq_iff describes, Dataset.Carries, Term.carried]
  constructor
  · rintro ⟨⟨subject, verb, value⟩, kept, rfl | rfl, rfl, rfl⟩
    · obtain ⟨⟨value, member, rfl⟩ | ⟨value, member, rfl⟩, free⟩ := (extending.kept_iff formIsIri).mp kept
      · exact .inr ⟨free rfl, .inl ⟨value, member, rfl⟩⟩
      · exact .inr ⟨free rfl, .inr ⟨value, member, rfl⟩⟩
    · obtain ⟨⟨value, member, -⟩ | ⟨value, member, rfl⟩, -⟩ := (extending.kept_iff extending.isIri).mp kept
      · exact absurd rfl (extending.unnamed ⟨_, _, value⟩ member)
      · exact .inl ⟨value, member, rfl⟩
  · rintro (⟨value, member, rfl⟩ | ⟨free, ⟨value, member, rfl⟩ | ⟨value, member, rfl⟩⟩)
    · exact ⟨⟨uri, .iri predicate, value.inScope "ext_"⟩, (extending.kept_iff extending.isIri).mpr
        ⟨.inr ⟨value, member, rfl⟩, fun same => absurd same extending.apart⟩, .inr rfl, rfl, rfl⟩
    · exact ⟨⟨form, .iri predicate, value.inScope "base_"⟩, (extending.kept_iff formIsIri).mpr
        ⟨.inl ⟨value, member, rfl⟩, fun _ => free⟩, .inl rfl, rfl, rfl⟩
    · exact ⟨⟨form, .iri predicate, value.inScope "ext_"⟩, (extending.kept_iff formIsIri).mpr
        ⟨.inr ⟨value, member, rfl⟩, fun _ => free⟩, .inl rfl, rfl, rfl⟩

/-- The link to the extended form is kept as it is. -/
theorem link_mem_folded (extending : Extends base extension form uri) :
    ⟨uri, .iri Ext.extendsForm, form⟩ ∈
      (base.loadedWith extension none).folded (extension.graph none) form uri := by
  have formIsIri := (Dataset.extendedForm_eq_ok.mp extending.declared).2
  refine Dataset.mem_loadedWith_folded.mpr ⟨⟨uri, .iri Ext.extendsForm, form⟩,
    (extending.kept_iff extending.isIri).mpr ⟨.inr ⟨form, Dataset.mem_of_extendedForm extending.declared,
      Term.inScope_of_isIri formIsIri⟩, fun same => absurd same extending.apart⟩, ?_⟩
  simp [Triple.folded, Triple.regrouped, Triple.promoted, Triple.resubjected, Triple.relinked,
    Ext.extendsForm, Ext.extendsGroup, Rdf.type, extending.apart]

end Extends

/-- The merged schema has the extension's own values of the predicates that a form is described by, the
form's where the extension has none, and the identifier of the extension. The form is no subject in it,
and is the object of the link from the extension and of nothing else. -/
theorem merge_adopts_identity {base extension : Dataset} {form uri : Term} (config : Config)
    (extending : Extends base extension form uri) :
    ∃ g : Graph, merge config base extension uri = .ok (.ofGraph g) ∧
      (∀ predicate ∈ replaceable, (∃ value, ⟨uri, .iri predicate, value⟩ ∈ extension.graph none) →
        ∀ object, ⟨uri, .iri predicate, object⟩ ∈ g ↔
          extension.Carries "ext_" form uri uri predicate object) ∧
      (∀ predicate ∈ replaceable, (∀ value, ⟨uri, .iri predicate, value⟩ ∉ extension.graph none) →
        ∀ object, ⟨uri, .iri predicate, object⟩ ∈ g ↔
          base.Carries "base_" form uri form predicate object ∨
            extension.Carries "ext_" form uri form predicate object) ∧
      (∀ object, ⟨uri, .iri Mu.uuid, object⟩ ∈ g ↔
        extension.Carries "ext_" form uri uri Mu.uuid object) ∧
      (∀ t ∈ g, t.subject ≠ form) ∧
      ∀ t, t ∈ g ∧ t.object = form ↔ t = ⟨uri, .iri Ext.extendsForm, form⟩ := by
  refine ⟨_, merge_of_extendedForm config extending.declared, ?_, ?_, ?_, ?_, ?_⟩
  · intro predicate listed ⟨value, sets⟩ object
    rw [extending.mem_folded_iff (List.mem_cons_of_mem _ listed)]
    exact or_iff_left fun ⟨⟨_, unset⟩, _⟩ => unset listed value sets
  · intro predicate listed unset object
    have notIdentifier : predicate ≠ Mu.uuid := by
      rintro rfl
      exact absurd listed (by decide)
    have nothing : ¬ extension.Carries "ext_" form uri uri predicate object :=
      fun ⟨value, sets, _⟩ => unset value sets
    rw [extending.mem_folded_iff (List.mem_cons_of_mem _ listed), or_iff_right nothing]
    exact and_iff_right ⟨notIdentifier, fun _ => unset⟩
  · intro object
    rw [extending.mem_folded_iff List.mem_cons_self]
    exact or_iff_left fun ⟨⟨other, _⟩, _⟩ => other rfl
  · intro t member
    obtain ⟨s, -, rfl⟩ := Dataset.mem_loadedWith_folded.mp member
    rw [Triple.subject_folded]
    exact Term.standIn_ne extending.apart
  · intro t
    constructor
    · rintro ⟨member, leads⟩
      obtain ⟨s, -, rfl⟩ := Dataset.mem_loadedWith_folded.mp member
      exact Triple.relinked_eq_of_object extending.apart leads
    · rintro rfl
      exact ⟨extending.link_mem_folded, rfl⟩

/-- A form with a blank target type, and a note that leads to it. -/
def plainForm : Dataset := .ofGraph <| .ofList
  [⟨.iri "b", .iri Rdf.type, .iri FormNs.form⟩, ⟨.iri "b", .iri Mu.uuid, .plain "1"⟩,
   ⟨.iri "b", .iri FormNs.targetLabel, .plain "Base"⟩, ⟨.iri "b", .iri FormNs.targetType, .blank "n"⟩,
   ⟨.iri "note", .iri "about", .iri "b"⟩]

/-- An extension that has a label of its own and gives the form another target type: the form. -/
def customForm : Dataset := .ofGraph <| .ofList
  [⟨.iri "e", .iri Rdf.type, .iri FormNs.extension⟩, ⟨.iri "e", .iri Ext.extendsForm, .iri "b"⟩,
   ⟨.iri "e", .iri Mu.uuid, .plain "2"⟩, ⟨.iri "e", .iri FormNs.targetLabel, .plain "Custom"⟩,
   ⟨.iri "b", .iri FormNs.targetType, .iri "b"⟩]

theorem mem_plainForm {t : Triple} : t ∈ plainForm.graph none ↔
    t = ⟨.iri "b", .iri Rdf.type, .iri FormNs.form⟩ ∨ t = ⟨.iri "b", .iri Mu.uuid, .plain "1"⟩ ∨
      t = ⟨.iri "b", .iri FormNs.targetLabel, .plain "Base"⟩ ∨
      t = ⟨.iri "b", .iri FormNs.targetType, .blank "n"⟩ ∨ t = ⟨.iri "note", .iri "about", .iri "b"⟩ := by
  simp [plainForm, Dataset.graph_ofGraph]

theorem mem_customForm {t : Triple} : t ∈ customForm.graph none ↔
    t = ⟨.iri "e", .iri Rdf.type, .iri FormNs.extension⟩ ∨
      t = ⟨.iri "e", .iri Ext.extendsForm, .iri "b"⟩ ∨ t = ⟨.iri "e", .iri Mu.uuid, .plain "2"⟩ ∨
      t = ⟨.iri "e", .iri FormNs.targetLabel, .plain "Custom"⟩ ∨
      t = ⟨.iri "b", .iri FormNs.targetType, .iri "b"⟩ := by
  simp [customForm, Dataset.graph_ofGraph]

theorem extends_customForm : Extends plainForm customForm (.iri "b") (.iri "e") where
  declared := by rfl
  isIri := rfl
  apart := by decide
  plain _ _ := Dataset.eq_none_of_mem_ofGraph
  plainExtension _ _ := Dataset.eq_none_of_mem_ofGraph
  unnamed t member := by
    rcases mem_plainForm.mp member with rfl | rfl | rfl | rfl | rfl <;> decide

/-- The label is the extension's own, the target types are the form's, and where the extension named
the form as one of them the merged schema names the extension. -/
theorem merge_adopts_identity_customForm : ∃ g : Graph,
    merge {} plainForm customForm (.iri "e") = .ok (.ofGraph g) ∧
      (∀ object, ⟨.iri "e", .iri FormNs.targetLabel, object⟩ ∈ g ↔ object = .plain "Custom") ∧
      (∀ object, ⟨.iri "e", .iri FormNs.targetType, object⟩ ∈ g ↔
        object = .blank "base_n" ∨ object = .iri "e") ∧
      ∀ object, ⟨.iri "e", .iri Mu.uuid, object⟩ ∈ g ↔ object = .plain "2" := by
  obtain ⟨g, merged, own, inherited, identifier, -⟩ := merge_adopts_identity {} extends_customForm
  have labels : ∀ value, ⟨.iri "e", .iri FormNs.targetLabel, value⟩ ∈ customForm.graph none ↔
      value = .plain "Custom" := fun value => by
    simp [mem_customForm, FormNs.targetLabel, Rdf.type, Ext.extendsForm, Mu.uuid]
  have uuids : ∀ value, ⟨.iri "e", .iri Mu.uuid, value⟩ ∈ customForm.graph none ↔
      value = .plain "2" := fun value => by
    simp [mem_customForm, FormNs.targetLabel, Rdf.type, Ext.extendsForm, Mu.uuid]
  have noTypes : ∀ value, ⟨.iri "e", .iri FormNs.targetType, value⟩ ∉ customForm.graph none :=
    fun value => by
      simp [mem_customForm, FormNs.targetLabel, FormNs.targetType, Rdf.type, Ext.extendsForm, Mu.uuid]
  have types : ∀ value, ⟨.iri "b", .iri FormNs.targetType, value⟩ ∈ customForm.graph none ↔
      value = .iri "b" := fun value => by simp [mem_customForm]
  have baseTypes : ∀ value, ⟨.iri "b", .iri FormNs.targetType, value⟩ ∈ plainForm.graph none ↔
      value = .blank "n" := fun value => by
    simp [mem_plainForm, FormNs.targetLabel, FormNs.targetType, Rdf.type, Mu.uuid]
  refine ⟨g, merged, fun object => ?_, fun object => ?_, fun object => ?_⟩
  · rw [own _ (by decide) ⟨_, (labels _).mpr rfl⟩, Dataset.Carries]
    simp only [labels, exists_eq_left]
    exact eq_comm
  · rw [inherited _ (by decide) noTypes, Dataset.Carries, Dataset.Carries]
    simp only [baseTypes, types, exists_eq_left]
    exact or_congr eq_comm eq_comm
  · rw [identifier, Dataset.Carries]
    simp only [uuids, exists_eq_left]
    exact eq_comm

end Formulary
