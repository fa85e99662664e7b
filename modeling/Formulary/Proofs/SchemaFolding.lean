import Formulary.Extension
import Formulary.Proofs.FiniteContent
import Mathlib.Logic.Basic

/-!
# Folding an extension triple by triple

What a merged schema consists of. The merge changes one graph in passes, and a pass may meet what an
earlier one made. It comes to the same as folding every kept triple of the two schemas by itself
(`merge_folds`): nothing is lost on the way and nothing is added.
-/

namespace Formulary
open Std

namespace Triple

variable (form uri : Term) (t : Triple)

/-- Makes extending a group belonging to it. -/
def regrouped : Triple :=
  if t.predicate = .iri Ext.extendsGroup then { t with predicate := .iri Sh.group } else t

/-- Makes the extension a form. -/
def promoted : Triple :=
  if t = ⟨uri, .iri Rdf.type, .iri FormNs.extension⟩ then { t with object := .iri FormNs.form } else t

/-- Says of the extension what is said of the form. -/
def resubjected : Triple := if t.subject = form then { t with subject := uri } else t

/-- Leads to the extension what leads to the form, unless it says what the extension extends. -/
def relinked : Triple :=
  if t.object = form ∧ ¬(t.subject = uri ∧ t.predicate = .iri Ext.extendsForm) then
    { t with object := uri }
  else t

/-- What becomes of a triple when the extension takes the place of the form. -/
def folded : Triple := (((t.regrouped).promoted uri).resubjected form uri).relinked form uri

end Triple

namespace Graph

variable {g extension : Graph} {form uri : Term} {t : Triple}

/-- Altering a graph changes each triple by itself, also where a changed triple is one that was kept
or is picked again. -/
theorem mem_alter {picked : Triple → Bool} {change : Triple → Triple} :
    t ∈ g.alter picked change ↔ ∃ s ∈ g, (if picked s then change s else s) = t := by
  simp only [alter, SortedSet.mem_insertMany, SortedSet.mem_filter, List.mem_map, List.mem_filter,
    SortedSet.mem_toList]
  constructor
  · rintro (⟨member, left⟩ | ⟨s, ⟨member, taken⟩, rfl⟩)
    · exact ⟨t, member, if_neg (by simpa using left)⟩
    · exact ⟨s, member, if_pos taken⟩
  · rintro ⟨s, member, rfl⟩
    by_cases taken : picked s
    · rw [if_pos taken]
      exact .inr ⟨s, ⟨member, taken⟩, rfl⟩
    · rw [if_neg taken]
      exact .inl ⟨member, by simpa using taken⟩

theorem mem_withGroups : t ∈ g.withGroups ↔ ∃ s ∈ g, s.regrouped = t := by
  simp only [withGroups, mem_alter, Triple.regrouped, beq_iff_eq]

theorem mem_withForm : t ∈ g.withForm uri ↔ ∃ s ∈ g, s.promoted uri = t := by
  have same : ∀ s : Triple, s.promoted uri =
      if s = ⟨uri, .iri Rdf.type, .iri FormNs.extension⟩ then ⟨uri, .iri Rdf.type, .iri FormNs.form⟩
      else s := by
    intro s
    by_cases declared : s = ⟨uri, .iri Rdf.type, .iri FormNs.extension⟩
    · simp [Triple.promoted, declared]
    · simp [Triple.promoted, declared]
  simp only [withForm, mem_alter, beq_iff_eq, same]

theorem mem_withSubject : t ∈ g.withSubject form uri ↔ ∃ s ∈ g, s.resubjected form uri = t := by
  simp only [withSubject, mem_alter, Triple.resubjected, beq_iff_eq]

theorem mem_withObject : t ∈ g.withObject form uri ↔ ∃ s ∈ g, s.relinked form uri = t := by
  simp only [withObject, mem_alter, Triple.relinked, Bool.and_eq_true, Bool.not_eq_true',
    beq_iff_eq, ← Bool.not_eq_true]

theorem sets_iff {predicate : String} :
    extension.sets uri predicate = true ↔ ∃ value, ⟨uri, .iri predicate, value⟩ ∈ extension := by
  simp only [sets, List.any_eq_true, Bool.and_eq_true, beq_iff_eq, SortedSet.mem_toList]
  constructor
  · rintro ⟨s, member, rfl, verb⟩
    exact ⟨s.object, verb ▸ member⟩
  · rintro ⟨value, member⟩
    exact ⟨_, member, rfl, rfl⟩

theorem mem_without {predicate : String} :
    t ∈ g.without form predicate ↔ t ∈ g ∧ ¬(t.subject = form ∧ t.predicate = .iri predicate) := by
  simp only [without, SortedSet.mem_filter, Bool.not_eq_true', Bool.and_eq_false_iff,
    beq_eq_false_iff_ne, not_and_or, ne_eq]

theorem mem_withoutAll {predicates : List String} :
    t ∈ predicates.foldl (fun g predicate => g.without form predicate) g ↔
      t ∈ g ∧ ∀ predicate ∈ predicates, ¬(t.subject = form ∧ t.predicate = .iri predicate) := by
  induction predicates generalizing g with
  | nil => simp
  | cons first rest ih =>
    rw [List.foldl_cons, ih, mem_without, List.forall_mem_cons, and_assoc]

theorem mem_withoutReplaced : t ∈ g.withoutReplaced extension form uri ↔
    t ∈ g ∧ ¬(t.subject = form ∧ t.predicate = .iri Mu.uuid) ∧
      ∀ predicate ∈ replaceable, (∃ value, ⟨uri, .iri predicate, value⟩ ∈ extension) →
        ¬(t.subject = form ∧ t.predicate = .iri predicate) := by
  simp only [withoutReplaced, mem_without, mem_withoutAll, List.mem_filter, sets_iff, and_imp]
  exact ⟨fun ⟨⟨member, kept⟩, other⟩ => ⟨member, other, kept⟩,
    fun ⟨member, other, kept⟩ => ⟨⟨member, kept⟩, other⟩⟩

theorem mem_folded : t ∈ g.folded extension form uri ↔
    ∃ s ∈ g.withoutReplaced extension form uri, s.folded form uri = t := by
  simp only [folded, mem_withObject, mem_withSubject, mem_withForm, mem_withGroups, Triple.folded,
    exists_exists_and_eq_and]

end Graph

/-! ## The merged schema -/

/-- Kept triples of the two schemas, their blank nodes apart: all but the identifier of the form and
those of its values that the extension sets itself. -/
structure Kept (base extension : Dataset) (form uri : Term) (t : Triple) : Prop where
  loaded : (∃ name, ∃ s ∈ base.graph name, s.inScope "base_" = t) ∨
    ∃ name, ∃ s ∈ extension.graph name, s.inScope "ext_" = t
  unidentified : ¬(t.subject = form ∧ t.predicate = .iri Mu.uuid)
  unset : ∀ predicate ∈ replaceable, (∃ value, ⟨uri, .iri predicate, value⟩ ∈ extension.graph none) →
    ¬(t.subject = form ∧ t.predicate = .iri predicate)

namespace Dataset

variable {d extension : Dataset} {form uri : Term}

/-- A dataset that holds the default graph alone is the dataset of that graph. -/
theorem eq_ofGraph_iff {g : Graph} (occupied : g ≠ ∅) :
    d = ofGraph g ↔ d.names = [none] ∧ ∀ t, t ∈ d.graph none ↔ t ∈ g := by
  constructor
  · rintro rfl
    exact ⟨names_ofGraph occupied, fun t => by rw [graph_ofGraph, if_pos rfl]⟩
  · rintro ⟨alone, same⟩
    refine ext_graph fun name => ?_
    rw [graph_ofGraph]
    by_cases default : name = none
    · rw [if_pos default, default]
      exact SortedSet.ext_mem same
    · rw [if_neg default]
      refine not_not.mp fun held => default ?_
      have listed : name ∈ d.names := mem_names.mpr held
      rwa [alone, List.mem_singleton] at listed

/-- An extension extends the first form that its link names, if this is an IRI. -/
theorem extendedForm_eq_ok : extension.extendedForm uri = .ok form ↔
    extension.objectOf uri (.iri Ext.extendsForm) = some form ∧ form.isIri := by
  rw [extendedForm]
  cases extension.objectOf uri (.iri Ext.extendsForm) with
  | none => simp
  | some other =>
    by_cases isIri : other.isIri
    · simp only [isIri, if_true, Except.ok.injEq, Option.some.injEq]
      exact ⟨fun same => ⟨same, same ▸ isIri⟩, And.left⟩
    · simp only [isIri, if_false, Bool.false_eq_true, Option.some.injEq, reduceCtorEq, false_iff]
      exact fun ⟨same, isIriToo⟩ => isIri (same ▸ isIriToo)

/-- An extension names the form that it extends in its default graph. -/
theorem mem_of_extendedForm (declared : extension.extendedForm uri = .ok form) :
    ⟨uri, .iri Ext.extendsForm, form⟩ ∈ extension.graph none :=
  mem_of_objectOf (extendedForm_eq_ok.mp declared).1

/-- Two schemas, loaded into one graph. -/
def loadedWith (base extension : Dataset) (place : GraphName) : Graph :=
  (((∅ : Dataset).insertScoped base place "base_").insertScoped extension place "ext_").graph place

variable {base : Dataset} {place : GraphName} {t : Triple}

theorem mem_loadedWith : t ∈ base.loadedWith extension place ↔
    (∃ name, ∃ s ∈ base.graph name, s.inScope "base_" = t) ∨
      ∃ name, ∃ s ∈ extension.graph name, s.inScope "ext_" = t := by
  simp only [loadedWith, mem_graph_insertScoped, graph_empty, SortedSet.not_mem_empty, false_or]

theorem loadedWith_eq (place other : GraphName) :
    base.loadedWith extension place = base.loadedWith extension other :=
  SortedSet.ext_mem fun t => by rw [mem_loadedWith, mem_loadedWith]

theorem mem_loadedWith_withoutReplaced :
    t ∈ (base.loadedWith extension place).withoutReplaced (extension.graph none) form uri ↔
      Kept base extension form uri t := by
  rw [Graph.mem_withoutReplaced, mem_loadedWith]
  constructor
  · rintro ⟨loaded, unidentified, unset⟩
    exact ⟨loaded, unidentified, unset⟩
  · rintro ⟨loaded, unidentified, unset⟩
    exact ⟨loaded, unidentified, unset⟩

theorem mem_loadedWith_folded :
    t ∈ (base.loadedWith extension place).folded (extension.graph none) form uri ↔
      ∃ s, Kept base extension form uri s ∧ s.folded form uri = t := by
  simp only [Graph.mem_folded, mem_loadedWith_withoutReplaced]

/-- The link to the extended form is kept, so the merged schema is not empty. -/
theorem loadedWith_folded_occupied (declared : extension.extendedForm uri = .ok form) :
    (base.loadedWith extension place).folded (extension.graph none) form uri ≠ ∅ := by
  intro empty
  let link : Triple := (Triple.mk uri (.iri Ext.extendsForm) form).inScope "ext_"
  have kept : Kept base extension form uri link := by
    refine ⟨.inr ⟨none, _, Dataset.mem_of_extendedForm declared, rfl⟩, ?_, ?_⟩
    · rintro ⟨-, verb⟩
      exact absurd (Term.iri.inj verb) (by decide)
    · rintro predicate listed - ⟨-, verb⟩
      have same : Ext.extendsForm = predicate := Term.iri.inj verb
      have replaced : Ext.extendsForm ∈ replaceable := same ▸ listed
      exact absurd replaced (by decide)
  have member : link.folded form uri ∈
      (base.loadedWith extension place).folded (extension.graph none) form uri :=
    mem_loadedWith_folded.mpr ⟨link, kept, rfl⟩
  rw [empty] at member
  exact SortedSet.not_mem_empty member

end Dataset

/-- Which graph the merge works in makes no difference. -/
theorem merge_eq {base extension : Dataset} {uri : Term} (config : Config) :
    merge config base extension uri = (extension.extendedForm uri).map fun form =>
      .ofGraph ((base.loadedWith extension none).folded (extension.graph none) form uri) := by
  rw [merge]
  cases extension.extendedForm uri with
  | error failure => rfl
  | ok form =>
    simp only [Except.map, Dataset.loadedWith_eq none (some config.mergePlace), pure, Except.pure, bind,
      Except.bind, Dataset.takeGraph, Dataset.graph_setGraph, if_pos]
    rfl

theorem merge_of_extendedForm {base extension : Dataset} {form uri : Term} (config : Config)
    (declared : extension.extendedForm uri = .ok form) : merge config base extension uri =
      .ok (.ofGraph ((base.loadedWith extension none).folded (extension.graph none) form uri)) := by
  rw [merge_eq, declared, Except.map]

/-- The merged schema, whatever the configuration: it exists when the extension says which form it
extends, it holds the default graph alone, and its triples are the kept triples of the two schemas,
each folded by itself. -/
theorem merge_folds (base extension : Dataset) (uri : Term) (config : Config) :
    (∀ merged, merge config base extension uri = .ok merged ↔
      ∃ form, extension.extendedForm uri = .ok form ∧ merged.names = [none] ∧
        ∀ t, t ∈ merged.graph none ↔ ∃ s, Kept base extension form uri s ∧ s.folded form uri = t) ∧
    (∀ failure, merge config base extension uri = .error failure ↔
      extension.extendedForm uri = .error failure) ∧
    ∀ other : Config, merge other base extension uri = merge config base extension uri := by
  refine ⟨fun merged => ?_, fun failure => ?_, fun other => by rw [merge_eq, merge_eq]⟩
  · rw [merge_eq]
    cases declared : extension.extendedForm uri with
    | error failure => simp [Except.map]
    | ok form =>
      rw [Except.map, Except.ok.injEq, eq_comm,
        Dataset.eq_ofGraph_iff (Dataset.loadedWith_folded_occupied declared)]
      simp [Dataset.mem_loadedWith_folded]
  · rw [merge_eq]
    cases extension.extendedForm uri with
    | error other => simp [Except.map]
    | ok form => simp [Except.map]

end Formulary
