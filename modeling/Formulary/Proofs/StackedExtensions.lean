import Formulary.Proofs.ListWalk
import Formulary.Proofs.MergedIdentity

/-!
# Extensions of extensions

What a merged schema says of the extension when the form in its place was an extension itself. All that
is said of the form becomes said of the extension, also which form it extended in turn and that it was
an extension. So the merged schema links the extension to more than one form, of which the first in the
order of terms counts (`merge_extends_first`); and it calls the extension a form, but also an extension
where the form was one that had not been merged (`merge_types_extension`).
-/

namespace Formulary
open Std

/-! ## Loaded triples about IRIs -/

/-- IRIs come before all other terms. -/
theorem Term.isIri_of_compare_lt {a b : Term} (isIri : b.isIri) (below : compare a b = .lt) :
    a.isIri := by
  obtain ⟨value, rfl⟩ := exists_iri_of_isIri isIri
  cases a with
  | iri other => rfl
  | blank label =>
    have above : compare (Term.blank label) (.iri value) = .gt := rfl
    exact absurd (below.symm.trans above) nofun
  | literal other =>
    have above : compare (Term.literal other) (.iri value) = .gt := rfl
    exact absurd (below.symm.trans above) nofun

theorem Term.eq_of_not_lt {a b : Term} (notBelow : compare a b ≠ .lt) (notAbove : compare b a ≠ .lt) :
    a = b := by
  cases order : compare a b with
  | lt => exact absurd order notBelow
  | eq => exact LawfulEqCmp.eq_of_compare order
  | gt => exact absurd (OrientedCmp.gt_iff_lt.mp order) notAbove

namespace Dataset

variable {base extension : Dataset} {place : GraphName} {subject predicate object : Term}

/-- Some graph of one of two schemas holds the triple. -/
def EitherHolds (base extension : Dataset) (t : Triple) : Prop :=
  (∃ name, t ∈ base.graph name) ∨ ∃ name, t ∈ extension.graph name

/-- Of IRIs the loaded schemas say what they said of them before. -/
theorem mem_loadedWith_of_isIri (subjectIsIri : subject.isIri) (objectIsIri : object.isIri) :
    ⟨subject, predicate, object⟩ ∈ base.loadedWith extension place ↔
      EitherHolds base extension ⟨subject, predicate, object⟩ := by
  have unscoped : ∀ (scope : String) (s : Triple),
      s.inScope scope = ⟨subject, predicate, object⟩ ↔ s = ⟨subject, predicate, object⟩ := by
    rintro scope ⟨a, verb, b⟩
    simp only [Triple.inScope, Triple.mk.injEq, Term.inScope_eq_iff subjectIsIri,
      Term.inScope_eq_iff objectIsIri]
  simp only [mem_loadedWith, unscoped, exists_eq_right, EitherHolds]

end Dataset

/-! ## Triples that folding moves -/

/-- The type that a type of a subject becomes: an extension itself becomes a form. -/
def Term.promotedOf (type subject uri : Term) : Term :=
  if subject = uri ∧ type = .iri FormNs.extension then .iri FormNs.form else type

theorem Term.isIri_of_promotedOf {type subject form uri : Term} (formIsIri : form.isIri)
    (isIri : ((type.promotedOf subject uri).standIn form uri).isIri) : type.isIri := by
  by_cases own : subject = uri ∧ type = .iri FormNs.extension
  · exact own.2 ▸ rfl
  · rw [promotedOf, if_neg own] at isIri
    by_cases replaced : type = form
    · exact replaced ▸ formIsIri
    · rwa [standIn_of_ne replaced] at isIri

namespace Triple

variable {form uri object : Term} {t : Triple}

/-- A link of the extension, or of the form before it, leads where it led. -/
theorem folded_of_link (moved : t.subject.standIn form uri = uri)
    (link : t.predicate = .iri Ext.extendsForm) : t.folded form uri = ⟨uri, t.predicate, t.object⟩ := by
  have regrouped : t.regrouped = t := if_neg (by simp [link, Ext.extendsForm, Ext.extendsGroup])
  have promoted : t.promoted uri = t := if_neg fun same => by
    have verb : t.predicate = .iri Rdf.type := congrArg Triple.predicate same
    exact absurd (Term.iri.inj (link.symm.trans verb)) (by decide)
  rw [folded, regrouped, promoted, resubjected_eq, moved, relinked,
    if_neg fun both => both.2 ⟨rfl, link⟩]

theorem folded_eq_link_iff : t.folded form uri = ⟨uri, .iri Ext.extendsForm, object⟩ ↔
    (t.subject = form ∨ t.subject = uri) ∧ t.predicate = .iri Ext.extendsForm ∧ t.object = object := by
  constructor
  · intro same
    have moved : t.subject.standIn form uri = uri :=
      subject_folded.symm.trans (congrArg Triple.subject same)
    have link : t.predicate = .iri Ext.extendsForm :=
      predicate_of_folded (congrArg Triple.predicate same) (by decide)
    rw [folded_of_link moved link] at same
    exact ⟨Term.standIn_eq_iff.mp moved, link, congrArg Triple.object same⟩
  · rintro ⟨subjects, link, rfl⟩
    rw [folded_of_link (Term.standIn_eq_iff.mpr subjects) link, link]

theorem object_promoted (typing : t.predicate = .iri Rdf.type) :
    (t.promoted uri).object = t.object.promotedOf t.subject uri := by
  obtain ⟨subject, verb, value⟩ := t
  obtain rfl : verb = .iri Rdf.type := typing
  by_cases own : subject = uri ∧ value = .iri FormNs.extension
  · simp [promoted, Term.promotedOf, own]
  · simp [promoted, Term.promotedOf, own]

theorem folded_eq_type_iff : t.folded form uri = ⟨uri, .iri Rdf.type, object⟩ ↔
    (t.subject = form ∨ t.subject = uri) ∧ t.predicate = .iri Rdf.type ∧
      (t.object.promotedOf t.subject uri).standIn form uri = object := by
  have plain : t.predicate = .iri Rdf.type → t.folded form uri =
      ⟨t.subject.standIn form uri, t.predicate,
        (t.object.promotedOf t.subject uri).standIn form uri⟩ := fun verb => by
    rw [folded_of_unlinked (by simp [verb, Rdf.type, Ext.extendsGroup])
      (by simp [verb, Rdf.type, Ext.extendsForm]), object_promoted verb]
  constructor
  · intro same
    have verb : t.predicate = .iri Rdf.type :=
      predicate_of_folded (congrArg Triple.predicate same) (by decide)
    rw [plain verb] at same
    obtain ⟨subjects, -, objects⟩ := Triple.mk.inj same
    exact ⟨Term.standIn_eq_iff.mp subjects, verb, objects⟩
  · rintro ⟨subjects, verb, rfl⟩
    rw [plain verb, Term.standIn_eq_iff.mpr subjects, verb]

end Triple

section
variable {base extension : Dataset} {form uri : Term} {t : Triple}

/-- What neither identifies nor describes a form is kept. -/
theorem Kept.of_loaded (loaded : t ∈ base.loadedWith extension none)
    (other : ∀ predicate ∈ Mu.uuid :: replaceable, t.predicate ≠ .iri predicate) :
    Kept base extension form uri t where
  loaded := Dataset.mem_loadedWith.mp loaded
  unidentified both := other _ List.mem_cons_self both.2
  unset predicate listed _ both := other predicate (List.mem_cons_of_mem _ listed) both.2

namespace Dataset

variable {predicate : String} {subject object : Term}

theorem mem_folded_iff_of_other (noGroup : predicate ≠ Sh.group)
    (other : predicate ∉ Mu.uuid :: replaceable) :
    ⟨subject, .iri predicate, object⟩ ∈
        (base.loadedWith extension none).folded (extension.graph none) form uri ↔
      ∃ s ∈ base.loadedWith extension none, s.folded form uri = ⟨subject, .iri predicate, object⟩ := by
  rw [mem_loadedWith_folded]
  constructor
  · rintro ⟨s, kept, same⟩
    exact ⟨s, mem_loadedWith.mpr kept.loaded, same⟩
  · rintro ⟨s, loaded, same⟩
    have verb : s.predicate = .iri predicate :=
      Triple.predicate_of_folded (congrArg Triple.predicate same) noGroup
    refine ⟨s, .of_loaded loaded fun listed member equal => other ?_, same⟩
    rwa [Term.iri.inj (verb.symm.trans equal)]

/-- Either schema gives the extension, or the form before it, a value of the predicate. -/
def Gives (base extension : Dataset) (form uri : Term) (predicate : String) (value : Term) : Prop :=
  ∃ subject, (subject = form ∨ subject = uri) ∧
    EitherHolds base extension ⟨subject, .iri predicate, value⟩

/-- The merged schema links the extension to whatever it or the form was linked to. -/
theorem mem_folded_link_iff (uriIsIri : uri.isIri) (formIsIri : form.isIri) (isIri : object.isIri) :
    ⟨uri, .iri Ext.extendsForm, object⟩ ∈
        (base.loadedWith extension none).folded (extension.graph none) form uri ↔
      Gives base extension form uri Ext.extendsForm object := by
  rw [mem_folded_iff_of_other (by decide) (by decide), Gives]
  simp only [Triple.folded_eq_link_iff]
  constructor
  · rintro ⟨⟨subject, verb, value⟩, loaded, subjects, rfl, rfl⟩
    have subjectIsIri : subject.isIri := by rcases subjects with rfl | rfl <;> assumption
    exact ⟨subject, subjects, (mem_loadedWith_of_isIri subjectIsIri isIri).mp loaded⟩
  · rintro ⟨subject, subjects, held⟩
    have subjectIsIri : subject.isIri := by rcases subjects with rfl | rfl <;> assumption
    exact ⟨_, (mem_loadedWith_of_isIri subjectIsIri isIri).mpr held, subjects, rfl, rfl⟩

end Dataset

/-- The merged schema gives the extension the types that it and the form had, where being an extension
has become being a form for the extension itself. -/
theorem Dataset.mem_folded_type_iff {type : Term} (uriIsIri : uri.isIri) (formIsIri : form.isIri)
    (isIri : type.isIri) :
    ⟨uri, .iri Rdf.type, type⟩ ∈
        (base.loadedWith extension none).folded (extension.graph none) form uri ↔
      ∃ subject value, (subject = form ∨ subject = uri) ∧
        EitherHolds base extension ⟨subject, .iri Rdf.type, value⟩ ∧
        (value.promotedOf subject uri).standIn form uri = type := by
  rw [mem_folded_iff_of_other (by decide) (by decide)]
  simp only [Triple.folded_eq_type_iff]
  constructor
  · rintro ⟨⟨subject, verb, value⟩, loaded, subjects, rfl, same⟩
    have subjectIsIri : subject.isIri := by rcases subjects with rfl | rfl <;> assumption
    have valueIsIri : value.isIri := Term.isIri_of_promotedOf formIsIri (same ▸ isIri)
    exact ⟨subject, value, subjects, (mem_loadedWith_of_isIri subjectIsIri valueIsIri).mp loaded, same⟩
  · rintro ⟨subject, value, subjects, held, same⟩
    have subjectIsIri : subject.isIri := by rcases subjects with rfl | rfl <;> assumption
    have valueIsIri : value.isIri := Term.isIri_of_promotedOf formIsIri (same ▸ isIri)
    exact ⟨_, (mem_loadedWith_of_isIri subjectIsIri valueIsIri).mpr held, subjects, rfl, same⟩

/-! ## The form that a merged schema extends -/

/-- A schema that links a term to some IRI extends the first of all those that it links it to. -/
theorem Dataset.exists_extendedForm {d : Dataset} (isIri : form.isIri)
    (linked : (d.graph none).Edge (.iri Ext.extendsForm) uri form) :
    ∃ first, d.extendedForm uri = .ok first ∧ first.isIri ∧
      (d.graph none).Edge (.iri Ext.extendsForm) uri first ∧
      ∀ other, (d.graph none).Edge (.iri Ext.extendsForm) uri other → compare other first ≠ .lt := by
  obtain ⟨first, found⟩ : ∃ first, d.objectOf uri (.iri Ext.extendsForm) = some first := by
    rw [objectOf_eq]
    exact Option.isSome_iff_exists.mp
      (List.isSome_head?.mpr (List.ne_nil_of_mem (Graph.mem_objects.mpr linked)))
  obtain ⟨edge, least⟩ := objectOf_eq_some_iff.mp found
  have firstIsIri : first.isIri := by
    by_cases below : compare first form = .lt
    · exact Term.isIri_of_compare_lt isIri below
    · exact Term.eq_of_not_lt below (least form linked) ▸ isIri
  exact ⟨first, extendedForm_eq_ok.mpr ⟨found, firstIsIri⟩, firstIsIri, edge, least⟩

/-- Merged schemas extend a form again: the first one, in the order of terms, to which either schema
links the extension or the form in its place. This is the form that the extension itself extends
exactly where there is no link to an earlier one. -/
theorem merge_extends_first (config : Config) (declared : extension.extendedForm uri = .ok form)
    (isIri : uri.isIri) : ∃ merged first, merge config base extension uri = .ok merged ∧
      merged.extendedForm uri = .ok first ∧
      Dataset.Gives base extension form uri Ext.extendsForm first ∧
      (∀ other, other.isIri → Dataset.Gives base extension form uri Ext.extendsForm other →
        compare other first ≠ .lt) ∧
      (first = form ↔ ∀ other, other.isIri →
        Dataset.Gives base extension form uri Ext.extendsForm other → compare other form ≠ .lt) := by
  have formIsIri := (Dataset.extendedForm_eq_ok.mp declared).2
  let g := (base.loadedWith extension none).folded (extension.graph none) form uri
  have links : ∀ other, other.isIri → (((Dataset.ofGraph g).graph none).Edge (.iri Ext.extendsForm) uri
      other ↔ Dataset.Gives base extension form uri Ext.extendsForm other) := fun other otherIsIri => by
    rw [Dataset.graph_ofGraph, if_pos rfl]
    exact Dataset.mem_folded_link_iff isIri formIsIri otherIsIri
  have own : Dataset.Gives base extension form uri Ext.extendsForm form :=
    ⟨uri, .inr rfl, .inr ⟨none, Dataset.mem_of_extendedForm declared⟩⟩
  obtain ⟨first, found, firstIsIri, edge, least⟩ :=
    Dataset.exists_extendedForm formIsIri ((links form formIsIri).mpr own)
  have given := (links first firstIsIri).mp edge
  have leastGiven : ∀ other, other.isIri →
      Dataset.Gives base extension form uri Ext.extendsForm other → compare other first ≠ .lt :=
    fun other otherIsIri linked => least other ((links other otherIsIri).mpr linked)
  refine ⟨_, first, merge_of_extendedForm config declared, found, given, leastGiven, ?_⟩
  constructor
  · rintro rfl
    exact leastGiven
  · intro none
    exact Term.eq_of_not_lt (none first firstIsIri given) (leastGiven form formIsIri own)

/-- A form that extends another one. -/
def secondForm : Dataset := .ofGraph <| .ofList
  [⟨.iri "m", .iri Rdf.type, .iri FormNs.form⟩, ⟨.iri "m", .iri Ext.extendsForm, .iri "b"⟩]

/-- An extension of that form. -/
def thirdForm : Dataset := .ofGraph <| .ofList
  [⟨.iri "t", .iri Rdf.type, .iri FormNs.extension⟩, ⟨.iri "t", .iri Ext.extendsForm, .iri "m"⟩]

theorem mem_secondForm {name : GraphName} {t : Triple} : t ∈ secondForm.graph name ↔ name = none ∧
    (t = ⟨.iri "m", .iri Rdf.type, .iri FormNs.form⟩ ∨
      t = ⟨.iri "m", .iri Ext.extendsForm, .iri "b"⟩) := by
  by_cases default : name = none <;> simp [secondForm, Dataset.graph_ofGraph, default]

theorem mem_thirdForm {name : GraphName} {t : Triple} : t ∈ thirdForm.graph name ↔ name = none ∧
    (t = ⟨.iri "t", .iri Rdf.type, .iri FormNs.extension⟩ ∨
      t = ⟨.iri "t", .iri Ext.extendsForm, .iri "m"⟩) := by
  by_cases default : name = none <;> simp [thirdForm, Dataset.graph_ofGraph, default]

theorem extendedForm_thirdForm : thirdForm.extendedForm (.iri "t") = .ok (.iri "m") := by rfl

/-- The form below the one in its place comes before it, and counts. -/
theorem merge_extends_first_thirdForm : ∃ merged, merge {} secondForm thirdForm (.iri "t") = .ok merged ∧
    merged.extendedForm (.iri "t") = .ok (.iri "b") := by
  obtain ⟨merged, first, made, found, given, least, -⟩ : ∃ merged first,
      merge {} secondForm thirdForm (.iri "t") = .ok merged ∧ _ :=
    merge_extends_first {} extendedForm_thirdForm rfl
  have below : Dataset.Gives secondForm thirdForm (.iri "m") (.iri "t") Ext.extendsForm (.iri "b") :=
    ⟨.iri "m", .inl rfl, .inl ⟨none, mem_secondForm.mpr (by simp)⟩⟩
  have candidates : first = .iri "b" ∨ first = .iri "m" := by
    simpa [Dataset.Gives, Dataset.EitherHolds, mem_secondForm, mem_thirdForm, Rdf.type,
      Ext.extendsForm] using given
  rcases candidates with rfl | rfl
  · exact ⟨merged, made, found⟩
  · exact absurd (by decide) (least (.iri "b") rfl below)

/-- The merged schema does not always extend the form that its extension does. -/
theorem earlier_link_counts : ¬ ∀ (config : Config) (base extension merged : Dataset) (uri : Term),
    uri.isIri → merge config base extension uri = .ok merged →
      merged.extendedForm uri = extension.extendedForm uri := by
  intro claim
  have same := claim {} secondForm thirdForm _ (.iri "t") rfl
    (merge_of_extendedForm {} extendedForm_thirdForm)
  have least := (Dataset.objectOf_eq_some_iff.mp
    (Dataset.extendedForm_eq_ok.mp (same.trans extendedForm_thirdForm)).1).2 (.iri "b")
  rw [Dataset.graph_ofGraph, if_pos rfl] at least
  exact least ((Dataset.mem_folded_link_iff rfl rfl rfl).mpr
    ⟨.iri "m", .inl rfl, .inl ⟨none, mem_secondForm.mpr (by simp)⟩⟩) (by decide)

/-! ## The types of a merged extension -/

/-- A merged extension has become a form, unless it extends the class of forms itself. It is still an
extension exactly where the form in its place was one. In all it has the types that it and the form
had. -/
theorem merge_types_extension (config : Config) (declared : extension.extendedForm uri = .ok form)
    (isIri : uri.isIri)
    (typed : ∃ name, ⟨uri, .iri Rdf.type, .iri FormNs.extension⟩ ∈ extension.graph name) :
    ∃ g : Graph, merge config base extension uri = .ok (.ofGraph g) ∧
      (∀ type, type.isIri → (⟨uri, .iri Rdf.type, type⟩ ∈ g ↔
        ∃ subject value, (subject = form ∨ subject = uri) ∧
          Dataset.EitherHolds base extension ⟨subject, .iri Rdf.type, value⟩ ∧
          (value.promotedOf subject uri).standIn form uri = type)) ∧
      (⟨uri, .iri Rdf.type, .iri FormNs.form⟩ ∈ g ↔ (form = .iri FormNs.form → uri = form)) ∧
      (uri ≠ .iri FormNs.extension → (⟨uri, .iri Rdf.type, .iri FormNs.extension⟩ ∈ g ↔
        form ≠ uri ∧ form ≠ .iri FormNs.extension ∧
          Dataset.EitherHolds base extension ⟨form, .iri Rdf.type, .iri FormNs.extension⟩)) := by
  have formIsIri := (Dataset.extendedForm_eq_ok.mp declared).2
  have types : ∀ type : Term, type.isIri → (_ ∈ (base.loadedWith extension none).folded
      (extension.graph none) form uri ↔ _) := fun _ isType =>
    Dataset.mem_folded_type_iff isIri formIsIri isType
  refine ⟨_, merge_of_extendedForm config declared, types, ?_, fun ordinary => ?_⟩
  · constructor
    · rintro member rfl
      rw [types _ rfl] at member
      obtain ⟨subject, value, -, -, same⟩ := member
      by_contra apart
      exact Term.standIn_ne apart same
    · intro replaced
      refine (types _ rfl).mpr ⟨uri, .iri FormNs.extension, .inr rfl, .inr typed, ?_⟩
      rw [Term.promotedOf, if_pos ⟨rfl, rfl⟩, Term.standIn]
      by_cases isClass : Term.iri FormNs.form = form
      · rw [if_pos isClass, replaced isClass.symm, isClass]
      · rw [if_neg isClass]
  · rw [types _ rfl]
    constructor
    · rintro ⟨subject, value, subjects, held, same⟩
      obtain ⟨isClass, noForm⟩ := (Term.standIn_eq_iff_of_ne ordinary).mp same
      by_cases own : subject = uri ∧ value = .iri FormNs.extension
      · rw [Term.promotedOf, if_pos own] at isClass
        exact absurd isClass (by decide)
      · rw [Term.promotedOf, if_neg own] at isClass noForm
        subst isClass
        have apart : subject ≠ uri := fun same => own ⟨same, rfl⟩
        obtain rfl := subjects.resolve_right apart
        exact ⟨apart, Ne.symm noForm, held⟩
    · rintro ⟨apart, noClass, held⟩
      refine ⟨form, _, .inl rfl, held, ?_⟩
      rw [Term.promotedOf, if_neg fun both => apart both.1, Term.standIn_of_ne (Ne.symm noClass)]

/-- A form that is an extension which has not been merged. -/
def unmergedForm : Dataset := .ofGraph <| .ofList
  [⟨.iri "m", .iri Rdf.type, .iri FormNs.extension⟩, ⟨.iri "m", .iri Ext.extendsForm, .iri "z"⟩]

theorem mem_unmergedForm {name : GraphName} {t : Triple} : t ∈ unmergedForm.graph name ↔ name = none ∧
    (t = ⟨.iri "m", .iri Rdf.type, .iri FormNs.extension⟩ ∨
      t = ⟨.iri "m", .iri Ext.extendsForm, .iri "z"⟩) := by
  by_cases default : name = none <;> simp [unmergedForm, Dataset.graph_ofGraph, default]

/-- The merged schema calls the extension a form, and also an extension. -/
theorem merge_types_extension_unmergedForm : ∃ g : Graph,
    merge {} unmergedForm thirdForm (.iri "t") = .ok (.ofGraph g) ∧
      ⟨.iri "t", .iri Rdf.type, .iri FormNs.form⟩ ∈ g ∧
      ⟨.iri "t", .iri Rdf.type, .iri FormNs.extension⟩ ∈ g := by
  obtain ⟨g, made, -, isForm, isExtension⟩ : ∃ g,
      merge {} unmergedForm thirdForm (.iri "t") = .ok (.ofGraph g) ∧ _ :=
    merge_types_extension {} extendedForm_thirdForm rfl ⟨none, mem_thirdForm.mpr (by simp)⟩
  exact ⟨g, made, isForm.mpr fun same => absurd same (by decide), (isExtension (by decide)).mpr
    ⟨by decide, by decide, .inl ⟨none, mem_unmergedForm.mpr (by simp)⟩⟩⟩

/-- A merged schema can call its extension an extension. -/
theorem merged_form_remains_extension : ¬ ∀ (config : Config) (base extension merged : Dataset)
    (uri : Term), uri.isIri →
      (∃ name, ⟨uri, .iri Rdf.type, .iri FormNs.extension⟩ ∈ extension.graph name) →
      merge config base extension uri = .ok merged →
      ⟨uri, .iri Rdf.type, .iri FormNs.form⟩ ∈ merged.graph none ∧
        ⟨uri, .iri Rdf.type, .iri FormNs.extension⟩ ∉ merged.graph none := by
  intro claim
  have promoted := (claim {} unmergedForm thirdForm _ (.iri "t") rfl
    ⟨none, mem_thirdForm.mpr (by simp)⟩ (merge_of_extendedForm {} extendedForm_thirdForm)).2
  rw [Dataset.graph_ofGraph, if_pos rfl] at promoted
  exact promoted ((Dataset.mem_folded_type_iff rfl rfl rfl).mpr
    ⟨.iri "m", .iri FormNs.extension, .inl rfl, .inl ⟨none, mem_unmergedForm.mpr (by simp)⟩, by decide⟩)

end
end Formulary
