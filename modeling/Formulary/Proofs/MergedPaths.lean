import Formulary.Proofs.LabelIndependence
import Formulary.Proofs.MergedIdentity

/-!
# Paths of a merged schema

A field of either schema keeps its chain when the two are merged (`merge_keeps_chain`). The cells of its
list are blank nodes, of which the merged schema says, under their scoped labels, what their own schema
said and nothing else: the other schema has labels of its own, and folding moves statements only to
the extension. So the list is passed by the same steps.
-/

namespace Formulary
open Std Relation

/-! ## The two schemas in one graph -/

/-- One of two schemas that are merged, with the scope of its blank nodes, and the other with its own. -/
inductive Side (base extension : Dataset) : Dataset → String → Dataset → String → Prop
  | base : Side base extension base "base_" extension "ext_"
  | extension : Side base extension extension "ext_" base "base_"

/-- An IRI other than the form is carried over as it is. -/
theorem Term.carried_of_isIri {a form uri : Term} {scope : String} (isIri : a.isIri)
    (apart : a ≠ form) : a.carried scope form uri = a := by
  rw [carried, inScope_of_isIri isIri, standIn_of_ne apart]

/-- Two schemas in their default graphs, of which one extends a form. Neither says anything of
`rdf:nil`, and the form is neither that nor the class of fields. -/
structure Combines (base extension : Dataset) (form uri : Term) : Prop where
  declared : extension.extendedForm uri = .ok form
  isIri : uri.isIri
  plain : ∀ name, ∀ t ∈ base.graph name, name = none
  plainExtension : ∀ name, ∀ t ∈ extension.graph name, name = none
  bare : ∀ t ∈ base.graph none, t.subject ≠ .iri Rdf.nil
  bareExtension : ∀ t ∈ extension.graph none, t.subject ≠ .iri Rdf.nil
  notEnd : form ≠ .iri Rdf.nil
  notClass : form ≠ .iri FormNs.field

/-- The term is neither of the two that become one, and the other schema says nothing of it. -/
inductive Owned (other : Dataset) (form uri : Term) : Term → Prop
  | blank {label} : Owned other form uri (.blank label)
  | named {a} : a.isIri → a ≠ form → a ≠ uri → (∀ t ∈ other.graph none, t.subject ≠ a) →
      Owned other form uri a

/-- From a cell on, there are only blank nodes and the end, each with one cell after it at most. -/
structure Graph.Line (g : Graph) (cell : Term) : Prop where
  unbranched : g.Unbranched cell
  blank : ∀ later, ReflTransGen (g.Edge (.iri Rdf.rest)) cell later →
    later = .iri Rdf.nil ∨ later.isBlank

namespace Graph.Line

variable {g : Graph} {cell next : Term}

theorem later (line : g.Line cell) (rest : g.Edge (.iri Rdf.rest) cell next) : g.Line next :=
  ⟨line.unbranched.later (.single rest), fun later way => line.blank later (.head rest way)⟩

theorem only (line : g.Line cell) (rest : g.Edge (.iri Rdf.rest) cell next) :
    ∀ other, g.Edge (.iri Rdf.rest) cell other ↔ other = next := fun other =>
  ⟨fun edge => line.unbranched cell .refl other next edge rest, fun same => same ▸ rest⟩

end Graph.Line

/-- The triples of the merged schema. -/
def Dataset.foldedWith (base extension : Dataset) (form uri : Term) : Graph :=
  (base.loadedWith extension none).folded (extension.graph none) form uri

theorem Dataset.mem_foldedWith {base extension : Dataset} {form uri : Term} {t : Triple} :
    t ∈ base.foldedWith extension form uri ↔
      ∃ s, Kept base extension form uri s ∧ s.folded form uri = t := by
  rw [foldedWith, mem_loadedWith_folded]

/-- Of another subject than the two that become one, no more than the object is changed. -/
theorem Triple.folded_of_apart {t : Triple} {form uri : Term}
    (noGroup : t.predicate ≠ .iri Ext.extendsGroup) (notForm : t.subject ≠ form)
    (notUri : t.subject ≠ uri) :
    t.folded form uri = ⟨t.subject, t.predicate, t.object.standIn form uri⟩ := by
  have still : t.subject.standIn form uri = t.subject := Term.standIn_of_ne notForm
  have promoted : t.promoted uri = t := if_neg fun same => notUri (congrArg Triple.subject same)
  rw [folded_of_unlinked noGroup fun both => notUri (still ▸ both.1), still, promoted]

namespace Side

variable {base extension own other : Dataset} {scope otherScope : String} {form uri a : Term}
  {t : Triple}

theorem mem_loadedWith (side : Side base extension own scope other otherScope)
    (combines : Combines base extension form uri) : t ∈ base.loadedWith extension none ↔
      (∃ s ∈ own.graph none, s.inScope scope = t) ∨
        ∃ s ∈ other.graph none, s.inScope otherScope = t := by
  have default : ∀ {d : Dataset} (scope : String), (∀ name, ∀ t ∈ d.graph name, name = none) →
      ((∃ name, ∃ s ∈ d.graph name, s.inScope scope = t) ↔
        ∃ s ∈ d.graph none, s.inScope scope = t) := by
    intro d scope plain
    constructor
    · rintro ⟨name, s, member, same⟩
      exact ⟨s, plain name s member ▸ member, same⟩
    · exact fun found => ⟨none, found⟩
  rw [Dataset.mem_loadedWith, default _ combines.plain, default _ combines.plainExtension]
  cases side with
  | base => exact Iff.rfl
  | extension => exact or_comm

theorem bare (side : Side base extension own scope other otherScope)
    (combines : Combines base extension form uri) : ∀ t ∈ own.graph none, t.subject ≠ .iri Rdf.nil := by
  cases side with
  | base => exact combines.bare
  | extension => exact combines.bareExtension

/-- A subject in the scope of one schema is no owned subject of the other. -/
theorem scoped_ne (side : Side base extension own scope other otherScope)
    (owned : Owned other form uri a) (member : t ∈ other.graph none) :
    t.subject.inScope otherScope ≠ a.inScope scope := by
  intro same
  cases owned with
  | blank =>
    cases side with
    | base => exact Term.inScope_ne scopesApart_schemas rfl same.symm
    | extension =>
      have blank : t.subject.isBlank := Term.isBlank_inScope.symm.trans (congrArg Term.isBlank same)
      exact Term.inScope_ne scopesApart_schemas blank same
  | named isIri _ _ unnamed =>
    rw [Term.inScope_of_isIri isIri, Term.inScope_eq_iff isIri] at same
    exact unnamed t member same

end Side

namespace Combines

variable {base extension own other : Dataset} {scope otherScope : String}
  {form uri a b cell : Term} {t : Triple} {step : Step} {chain : Chain} {predicate : String}

section
variable (combines : Combines base extension form uri)
include combines

theorem isIri_form : form.isIri := (Dataset.extendedForm_eq_ok.mp combines.declared).2

/-- Under its scope, an owned term is still neither of the two that become one. -/
theorem scoped_ne_of_owned (owned : Owned other form uri a) :
    a.inScope scope ≠ form ∧ a.inScope scope ≠ uri := by
  cases owned with
  | blank =>
    exact ⟨fun same => absurd (same ▸ combines.isIri_form) nofun,
      fun same => absurd (same ▸ combines.isIri) nofun⟩
  | named isIri notForm notUri _ =>
    rw [Term.inScope_of_isIri isIri]
    exact ⟨notForm, notUri⟩

theorem carried_of_owned (owned : Owned other form uri a) :
    a.carried scope form uri = a.inScope scope :=
  Term.standIn_of_ne (combines.scoped_ne_of_owned owned).1

/-- What is said of an owned term keeps its predicate, and its object is carried over. -/
theorem folded_of_owned (owned : Owned other form uri a) (noExtends : predicate ≠ Ext.extendsGroup) :
    ((Triple.mk a (.iri predicate) b).inScope scope).folded form uri =
      ⟨a.inScope scope, .iri predicate, b.carried scope form uri⟩ := by
  obtain ⟨notForm, notUri⟩ : a.inScope scope ≠ form ∧ a.inScope scope ≠ uri :=
    combines.scoped_ne_of_owned owned
  exact Triple.folded_of_apart (fun same => noExtends (Term.iri.inj same)) notForm notUri

/-- Nothing is said of the end of lists. -/
theorem bare_foldedWith : ∀ t ∈ base.foldedWith extension form uri, t.subject ≠ .iri Rdf.nil := by
  intro t merged ends
  obtain ⟨u, kept, rfl⟩ := Dataset.mem_foldedWith.mp merged
  have notUri : uri ≠ .iri Rdf.nil :=
    combines.bareExtension _ (Dataset.mem_of_extendedForm combines.declared)
  rw [Triple.subject_folded, Term.standIn_eq_iff_of_ne notUri] at ends
  rcases (Side.base.mem_loadedWith combines).mp (Dataset.mem_loadedWith.mpr kept.loaded) with
    ⟨s, member, rfl⟩ | ⟨s, member, rfl⟩
  · exact combines.bare s member ((Term.inScope_eq_iff rfl).mp ends.1)
  · exact combines.bareExtension s member ((Term.inScope_eq_iff rfl).mp ends.1)

end

section
variable (combines : Combines base extension form uri)
  (side : Side base extension own scope other otherScope)
include combines side

/-- Of an owned term the merged schema says what its own schema said, folded, and nothing else. -/
theorem mem_foldedWith_iff (owned : Owned other form uri a) :
    t ∈ base.foldedWith extension form uri ∧ t.subject = a.inScope scope ↔
      ∃ s ∈ own.graph none, s.subject = a ∧ (s.inScope scope).folded form uri = t := by
  obtain ⟨notForm, notUri⟩ : a.inScope scope ≠ form ∧ a.inScope scope ≠ uri :=
    combines.scoped_ne_of_owned owned
  constructor
  · rintro ⟨merged, about⟩
    obtain ⟨u, kept, rfl⟩ := Dataset.mem_foldedWith.mp merged
    rw [Triple.subject_folded, Term.standIn_eq_iff_of_ne (Ne.symm notUri)] at about
    rcases (side.mem_loadedWith combines).mp (Dataset.mem_loadedWith.mpr kept.loaded) with
      ⟨s, member, rfl⟩ | ⟨s, member, rfl⟩
    · exact ⟨s, member, Term.inScope_inj.mp about.1, rfl⟩
    · exact absurd about.1 (side.scoped_ne owned member)
  · rintro ⟨s, member, rfl, rfl⟩
    have loaded := (side.mem_loadedWith combines).mpr (.inl ⟨s, member, rfl⟩)
    have kept : Kept base extension form uri (s.inScope scope) :=
      ⟨Dataset.mem_loadedWith.mp loaded, fun both => notForm both.1, fun _ _ _ both => notForm both.1⟩
    exact ⟨Dataset.mem_foldedWith.mpr ⟨_, kept, rfl⟩,
      Triple.subject_folded.trans (Term.standIn_of_ne notForm)⟩

/-- The edges from an owned term are its own, carried over. -/
theorem edge_iff (owned : Owned other form uri a)
    (noGroup : predicate ∉ [Sh.group, Ext.extendsGroup]) :
    (base.foldedWith extension form uri).Edge (.iri predicate) (a.inScope scope) b ↔
      ∃ c, (own.graph none).Edge (.iri predicate) a c ∧ c.carried scope form uri = b := by
  obtain ⟨notMade, notChanged⟩ : predicate ≠ Sh.group ∧ predicate ≠ Ext.extendsGroup := by
    simpa using noGroup
  constructor
  · intro edge
    obtain ⟨⟨_, verb, c⟩, member, rfl, same⟩ := (combines.mem_foldedWith_iff side owned).mp ⟨edge, rfl⟩
    obtain rfl : verb = .iri predicate :=
      Triple.predicate_of_folded (congrArg Triple.predicate same) notMade
    rw [combines.folded_of_owned owned notChanged] at same
    exact ⟨c, member, congrArg Triple.object same⟩
  · rintro ⟨c, member, rfl⟩
    exact ((combines.mem_foldedWith_iff side owned).mpr
      ⟨_, member, rfl, combines.folded_of_owned owned notChanged⟩).1

theorem alone (owned : Owned other form uri a) (noGroup : predicate ∉ [Sh.group, Ext.extendsGroup])
    (alone : ∀ c, (own.graph none).Edge (.iri predicate) a c ↔ c = b) :
    ∀ c, (base.foldedWith extension form uri).Edge (.iri predicate) (a.inScope scope) c ↔
      c = b.carried scope form uri := fun c => by
  simp only [combines.edge_iff side owned noGroup, alone, exists_eq_left, @eq_comm _ c]

/-! ## Lists -/

/-- An element carried over stands for the same step, unless this leads along the form. -/
theorem stepOf (stands : (own.graph none).stepOf a = .ok step) (free : step.predicate ≠ form) :
    (base.foldedWith extension form uri).stepOf (a.carried scope form uri) = .ok step := by
  cases a with
  | iri value =>
    obtain rfl : Step.forward (.iri value) = step := Except.ok.inj stands
    have still : (Term.iri value).carried scope form uri = .iri value := Term.carried_of_isIri rfl free
    rw [still, Graph.stepOf]
  | literal value =>
    rw [Graph.stepOf] at stands
    cases stands
  | blank label =>
    obtain ⟨target, only, isIri, rfl⟩ := Graph.stepOf_blank_eq_ok.mp stands
    have owned : Owned other form uri (.blank label) := .blank
    have folded : ((Triple.mk (.blank label) (.iri Sh.inversePath) target).inScope scope).folded form
        uri = ⟨.blank (scope ++ label), .iri Sh.inversePath, target⟩ :=
      (combines.folded_of_owned owned (by decide)).trans (by rw [Term.carried_of_isIri isIri free]; rfl)
    rw [combines.carried_of_owned owned]
    refine Graph.stepOf_blank_eq_ok.mpr ⟨target, fun t => ?_, isIri, rfl⟩
    exact (combines.mem_foldedWith_iff side owned).trans <| by
      simp only [← and_assoc, only, exists_eq_left, folded, eq_comm]

theorem decode? (owned : Owned other form uri cell)
    (decoded : (own.graph none).decode? cell = some (.ok step)) (free : step.predicate ≠ form) :
    (base.foldedWith extension form uri).decode? (cell.inScope scope) = some (.ok step) := by
  obtain ⟨element, only, stands⟩ := Graph.decode?_eq_ok.mp decoded
  exact Graph.decode?_eq_ok.mpr ⟨_, combines.alone side owned (by decide) only,
    combines.stepOf side stands free⟩

/-- A cell of such a list that has an element is a blank node. -/
theorem owned_of_line {element : Term} (line : (own.graph none).Line cell)
    (first : (own.graph none).Edge (.iri Rdf.first) cell element) : Owned other form uri cell := by
  rcases line.blank cell .refl with rfl | blank
  · exact absurd rfl (side.bare combines _ first)
  · obtain ⟨label, rfl⟩ := Term.exists_blank_of_isBlank blank
    exact .blank

/-- The list is passed by the same steps under its scoped labels. -/
theorem passes (line : (own.graph none).Line cell) (passes : (own.graph none).Passes cell chain)
    (free : ∀ step ∈ chain, step.predicate ≠ form) :
    (base.foldedWith extension form uri).Passes (cell.inScope scope) chain := by
  induction passes with
  | @last cell step decoded ends _ =>
    have owned := combines.owned_of_line side line (Graph.edge_first_of_decode? decoded).choose_spec
    have rests := combines.alone side owned (by decide) (line.only ends)
    rw [Term.carried_of_isIri rfl (Ne.symm combines.notEnd)] at rests
    refine .last (combines.decode? side owned decoded (free step (by simp))) ((rests _).mpr rfl)
      fun next later edge carries => ?_
    obtain rfl := (rests next).mp edge
    obtain ⟨element, first⟩ := Graph.edge_first_of_decode? carries
    exact combines.bare_foldedWith _ first rfl
  | @more cell next step chain decoded rest _ beyond ih =>
    have owned := combines.owned_of_line side line (Graph.edge_first_of_decode? decoded).choose_spec
    have onward := line.later rest
    obtain ⟨_, _, -, carries⟩ := beyond.exists_step
    have ownedNext :=
      combines.owned_of_line side onward (Graph.edge_first_of_decode? carries).choose_spec
    have rests := combines.alone side owned (by decide) (line.only rest)
    rw [combines.carried_of_owned ownedNext] at rests
    exact .more (combines.decode? side owned decoded (free step (by simp))) ((rests _).mpr rfl)
      (fun other _ edge _ => (rests other).mp edge)
      (ih onward fun later member => free later (List.mem_cons_of_mem _ member))

/-- The path of an owned field leads along the same steps. -/
theorem outcome {field : Term} (isIri : field.isIri) (owned : Owned other form uri field)
    (found : (own.graph none).outcome field = .ok chain) (free : ∀ step ∈ chain, step.predicate ≠ form)
    (line : ∀ list, (own.graph none).Edge (.iri Sh.path) field list → list.isBlank →
      (own.graph none).Line list) :
    (base.foldedWith extension form uri).outcome field = .ok chain := by
  rcases Graph.outcome_eq_ok.mp found with ⟨predicate, only, rfl⟩ | ⟨label, only, passes⟩
  · have paths := combines.alone side owned (by decide) only
    have apart : Term.iri predicate ≠ form := free _ List.mem_cons_self
    rw [Term.inScope_of_isIri isIri, Term.carried_of_isIri rfl apart] at paths
    exact Graph.outcome_eq_ok.mpr (.inl ⟨predicate, paths, rfl⟩)
  · have blank : Owned other form uri (.blank label) := .blank
    have paths := combines.alone side owned (by decide) only
    rw [Term.inScope_of_isIri isIri, combines.carried_of_owned blank] at paths
    have passes := combines.passes side (line _ ((only _).mpr rfl) rfl) passes free
    exact Graph.outcome_eq_ok.mpr (.inr ⟨scope ++ label, paths, passes⟩)

theorem starts {field list : Term} (isIri : field.isIri) (owned : Owned other form uri field)
    (starts : (own.graph none).Starts .field field list) :
    (base.foldedWith extension form uri).Starts .field field (list.carried scope form uri) := by
  have carried : ∀ {predicate b}, predicate ∉ [Sh.group, Ext.extendsGroup] →
      (own.graph none).Edge (.iri predicate) field b →
      (base.foldedWith extension form uri).Edge (.iri predicate) field (b.carried scope form uri) :=
    fun noGroup edge => by
      have edges := (combines.edge_iff side owned noGroup).mpr ⟨_, edge, rfl⟩
      rwa [Term.inScope_of_isIri isIri] at edges
  have typed := carried (by decide) starts.1
  rw [Term.carried_of_isIri rfl (Ne.symm combines.notClass)] at typed
  exact ⟨typed, carried (by decide) starts.2⟩

/-- A blank element of the merged schema was an element of its own schema, and what is said of it was
said there. -/
theorem predicate_of_element {first : Triple} {element : Term}
    (supports : ∀ cell, (own.graph none).Supported cell) (member : first ∈ own.graph none)
    (folds : (first.inScope scope).folded form uri = ⟨cell, .iri Rdf.first, element⟩)
    (blank : element.isBlank) (said : t ∈ base.foldedWith extension form uri)
    (about : t.subject = element) : t.predicate = .iri Sh.inversePath := by
  obtain ⟨subject, verb, value⟩ := first
  obtain rfl : verb = .iri Rdf.first :=
    Triple.predicate_of_folded (congrArg Triple.predicate folds) (by decide)
  have promoted : ((Triple.mk subject (.iri Rdf.first) value).inScope scope).promoted uri =
      (Triple.mk subject (.iri Rdf.first) value).inScope scope := if_neg fun same =>
    absurd (Term.iri.inj (congrArg Triple.predicate same)) (by decide)
  rw [Triple.folded_of_unlinked (fun same => absurd (Term.iri.inj same) (by decide))
    (fun both => absurd (Term.iri.inj both.2) (by decide)), promoted] at folds
  have carried : value.carried scope form uri = element := congrArg Triple.object folds
  obtain ⟨label, rfl⟩ : ∃ label, value = .blank label := by
    rw [Term.carried, Term.standIn] at carried
    split at carried
    · exact absurd (carried ▸ blank) (Term.not_isBlank_of_isIri combines.isIri)
    · exact Term.exists_blank_of_isBlank (Term.isBlank_inScope.symm.trans (carried ▸ blank))
  have owned : Owned other form uri (.blank label) := .blank
  rw [combines.carried_of_owned owned] at carried
  obtain ⟨u, saidBefore, aboutBefore, rfl⟩ :=
    (combines.mem_foldedWith_iff side owned).mp ⟨said, about.trans carried.symm⟩
  have inverse : u.predicate = .iri Sh.inversePath :=
    supports subject _ member rfl u (Graph.mem_about.mpr ⟨saidBefore, aboutBefore⟩)
  exact (Triple.predicate_folded_of_ne (t := u.inScope scope) fun same =>
    absurd (Term.iri.inj (inverse.symm.trans same)) (by decide)).trans inverse

end

theorem graph_merge {config : Config} {merged : Dataset} (combines : Combines base extension form uri)
    (made : merge config base extension uri = .ok merged) :
    merged.graph none = base.foldedWith extension form uri := by
  rw [merge_of_extendedForm config combines.declared, Except.ok.injEq] at made
  rw [← made, Dataset.graph_ofGraph, if_pos rfl, Dataset.foldedWith]

/-- No cell becomes unsupported by merging. -/
theorem supported (combines : Combines base extension form uri)
    (supports : ∀ cell, (base.graph none).Supported cell)
    (supportsToo : ∀ cell, (extension.graph none).Supported cell) :
    (base.foldedWith extension form uri).Supported cell := by
  intro element edge blank t about
  obtain ⟨said, about⟩ := Graph.mem_about.mp about
  obtain ⟨u, kept, same⟩ := Dataset.mem_foldedWith.mp edge
  rcases (Side.base.mem_loadedWith combines).mp (Dataset.mem_loadedWith.mpr kept.loaded) with
    ⟨first, member, rfl⟩ | ⟨first, member, rfl⟩
  · exact combines.predicate_of_element .base supports member same blank said about
  · exact combines.predicate_of_element .extension supportsToo member same blank said about

end Combines

section
variable {base extension own other merged : Dataset} {form uri field : Term} {chain : Chain}
  {r s : Resolution}

/-- A field of one of two schemas keeps its chain in the merged schema. -/
theorem merge_keeps_chain (config : Config) (combines : Combines base extension form uri)
    (made : merge config base extension uri = .ok merged)
    (sides : own = base ∧ other = extension ∨ own = extension ∧ other = base)
    (isIri : field.isIri) (notForm : field ≠ form) (notUri : field ≠ uri)
    (unnamed : ∀ t ∈ other.graph none, t.subject ≠ field)
    (resolves : own.resolve .field = .ok r) (found : r.chains.get? (.field field) = some chain)
    (free : ∀ step ∈ chain, step.predicate ≠ form)
    (line : ∀ list, (own.graph none).Edge (.iri Sh.path) field list → list.isBlank →
      (own.graph none).Line list)
    (resolvesToo : merged.resolve .field = .ok s) : s.chains.get? (.field field) = some chain := by
  have owned : Owned other form uri field := .named isIri notForm notUri unnamed
  obtain ⟨scope, otherScope, side⟩ : ∃ scope otherScope,
      Side base extension own scope other otherScope := by
    rcases sides with ⟨rfl, rfl⟩ | ⟨rfl, rfl⟩
    · exact ⟨_, _, .base⟩
    · exact ⟨_, _, .extension⟩
  obtain ⟨⟨list, starts⟩, outcome⟩ := (get?_chains_iff resolves).mp found
  have startsToo := combines.starts side isIri owned starts
  have outcomeToo := combines.outcome side isIri owned outcome free line
  rw [← combines.graph_merge made] at startsToo outcomeToo
  exact (get?_chains_iff resolvesToo).mpr ⟨⟨_, startsToo⟩, outcomeToo⟩

/-- An extension with a field of its own, whose list has a first cell of the same label as that of
`lineSchema`. -/
def fieldExtension : Dataset := .ofGraph <| .ofList
  [⟨.iri "e", .iri Rdf.type, .iri FormNs.extension⟩, ⟨.iri "e", .iri Ext.extendsForm, .iri "b"⟩,
   ⟨.iri "g", .iri Rdf.type, .iri FormNs.field⟩, ⟨.iri "g", .iri Sh.path, .blank "c"⟩,
   ⟨.blank "c", .iri Rdf.first, .iri "r"⟩, ⟨.blank "c", .iri Rdf.rest, .iri Rdf.nil⟩]

theorem edge_fieldExtension {a b predicate : Term} :
    (fieldExtension.graph none).Edge predicate a b ↔
      a = .iri "e" ∧ predicate = .iri Rdf.type ∧ b = .iri FormNs.extension ∨
      a = .iri "e" ∧ predicate = .iri Ext.extendsForm ∧ b = .iri "b" ∨
      a = .iri "g" ∧ predicate = .iri Rdf.type ∧ b = .iri FormNs.field ∨
      a = .iri "g" ∧ predicate = .iri Sh.path ∧ b = .blank "c" ∨
      a = .blank "c" ∧ predicate = .iri Rdf.first ∧ b = .iri "r" ∨
      a = .blank "c" ∧ predicate = .iri Rdf.rest ∧ b = .iri Rdf.nil := by
  simp [Graph.Edge, fieldExtension, Dataset.graph_ofGraph]

theorem first_fieldExtension {a b : Term} : (fieldExtension.graph none).Edge (.iri Rdf.first) a b ↔
    a = .blank "c" ∧ b = .iri "r" := by
  simp [edge_fieldExtension, Rdf.first, Rdf.type, Rdf.rest, Sh.path, Ext.extendsForm]

theorem rest_fieldExtension {a b : Term} : (fieldExtension.graph none).Edge (.iri Rdf.rest) a b ↔
    a = .blank "c" ∧ b = .iri Rdf.nil := by
  simp [edge_fieldExtension, Rdf.first, Rdf.type, Rdf.rest, Sh.path, Ext.extendsForm]

theorem path_fieldExtension {a b : Term} : (fieldExtension.graph none).Edge (.iri Sh.path) a b ↔
    a = .iri "g" ∧ b = .blank "c" := by
  simp [edge_fieldExtension, Rdf.first, Rdf.type, Rdf.rest, Sh.path, Ext.extendsForm]

theorem supported_fieldExtension {cell : Term} : (fieldExtension.graph none).Supported cell := by
  intro element first blank
  exact absurd ((first_fieldExtension.mp first).2 ▸ blank) nofun

theorem passes_fieldExtension :
    (fieldExtension.graph none).Passes (.blank "c") [.forward (.iri "r")] := by
  refine .last (Graph.decode?_eq_ok.mpr ⟨.iri "r", fun _ => first_fieldExtension.trans (by simp), rfl⟩)
    (rest_fieldExtension.mpr ⟨rfl, rfl⟩) fun next later rest carries => ?_
  obtain ⟨element, first⟩ := Graph.edge_first_of_decode? carries
  exact absurd ((rest_fieldExtension.mp rest).2.symm.trans (first_fieldExtension.mp first).1) nofun

theorem outcome_fieldExtension :
    (fieldExtension.graph none).outcome (.iri "g") = .ok [.forward (.iri "r")] :=
  Graph.outcome_eq_ok.mpr
    (.inr ⟨"c", fun _ => path_fieldExtension.trans (by simp), passes_fieldExtension⟩)

theorem outcome_lineSchema : (lineSchema.graph none).outcome (.iri "f") =
    .ok [.inverse (.iri "p"), .forward (.iri "q")] := by
  have bare : ∀ element, ¬ (lineSchema.graph none).Edge (.iri Rdf.first) (.iri Rdf.nil) element :=
    fun element first => by simp [first_lineSchema] at first
  rw [Graph.outcome_eq_readPath bare fun _ _ _ => unbranched_lineSchema, readPath_lineSchema]

theorem line_fieldExtension : (fieldExtension.graph none).Line (.blank "c") where
  unbranched later _ a b first second :=
    (rest_fieldExtension.mp first).2.trans (rest_fieldExtension.mp second).2.symm
  blank later way := by
    cases way with
    | refl => exact .inr rfl
    | tail _ rest => exact .inl (rest_fieldExtension.mp rest).2

theorem line_lineSchema : (lineSchema.graph none).Line (.blank "c") where
  unbranched := unbranched_lineSchema
  blank later way := by
    cases way with
    | refl => exact .inr rfl
    | tail _ rest => rcases rest_lineSchema.mp rest with ⟨-, rfl⟩ | ⟨-, rfl⟩ <;> simp [Term.isBlank]

theorem combines_fieldExtension : Combines lineSchema fieldExtension (.iri "b") (.iri "e") where
  declared := by rfl
  isIri := rfl
  plain _ _ := Dataset.eq_none_of_mem_ofGraph
  plainExtension _ _ := Dataset.eq_none_of_mem_ofGraph
  bare t member ends := by
    have edge : (lineSchema.graph none).Edge t.predicate (.iri Rdf.nil) t.object := ends ▸ member
    simp [edge_lineSchema, Rdf.nil] at edge
  bareExtension t member ends := by
    have edge : (fieldExtension.graph none).Edge t.predicate (.iri Rdf.nil) t.object := ends ▸ member
    simp [edge_fieldExtension, Rdf.nil] at edge
  notEnd := by decide
  notClass := by decide

/-- Both fields keep their chains, though their lists began with the same label. -/
theorem merge_keeps_chain_fieldExtension : ∃ merged s,
    merge {} lineSchema fieldExtension (.iri "e") = .ok merged ∧ merged.resolve .field = .ok s ∧
      s.chains.get? (.field (.iri "f")) = some [.inverse (.iri "p"), .forward (.iri "q")] ∧
      s.chains.get? (.field (.iri "g")) = some [.forward (.iri "r")] := by
  obtain ⟨merged, made⟩ : ∃ merged, merge {} lineSchema fieldExtension (.iri "e") = .ok merged :=
    ⟨_, merge_of_extendedForm {} combines_fieldExtension.declared⟩
  obtain ⟨r, resolves⟩ : ∃ r, lineSchema.resolve .field = .ok r :=
    exists_resolve (fun _ _ _ => supported_lineSchema) fun _ _ _ => supported_lineSchema
  obtain ⟨q, resolvesToo⟩ : ∃ q, fieldExtension.resolve .field = .ok q :=
    exists_resolve (fun _ _ _ => supported_fieldExtension) fun _ _ _ => supported_fieldExtension
  have supports : ∀ cell, (merged.graph none).Supported cell := fun cell => by
    rw [combines_fieldExtension.graph_merge made]
    exact combines_fieldExtension.supported (fun _ => supported_lineSchema)
      fun _ => supported_fieldExtension
  obtain ⟨s, resolvesMerged⟩ : ∃ s, merged.resolve .field = .ok s :=
    exists_resolve (fun _ _ _ => supports _) fun _ _ _ => supports _
  have foundBase : r.chains.get? (.field (.iri "f")) =
      some [.inverse (.iri "p"), .forward (.iri "q")] :=
    (get?_chains_iff resolves).mpr ⟨⟨.blank "c", edge_lineSchema.mpr (by simp),
      edge_lineSchema.mpr (by simp)⟩, outcome_lineSchema⟩
  have foundExtension : q.chains.get? (.field (.iri "g")) = some [.forward (.iri "r")] :=
    (get?_chains_iff resolvesToo).mpr ⟨⟨.blank "c", edge_fieldExtension.mpr (by simp),
      edge_fieldExtension.mpr (by simp)⟩, outcome_fieldExtension⟩
  refine ⟨merged, s, made, resolvesMerged, ?_, ?_⟩
  · refine merge_keeps_chain {} combines_fieldExtension made (.inl ⟨rfl, rfl⟩) rfl (by decide)
      (by decide) (fun t member about => ?_) resolves foundBase (by decide) (fun list path _ => ?_)
      resolvesMerged
    · have edge : (fieldExtension.graph none).Edge t.predicate (.iri "f") t.object := about ▸ member
      simp [edge_fieldExtension] at edge
    · obtain rfl : list = .blank "c" := by
        simpa [edge_lineSchema, Sh.path, Rdf.type, Rdf.first, Rdf.rest] using path
      exact line_lineSchema
  · refine merge_keeps_chain {} combines_fieldExtension made (.inr ⟨rfl, rfl⟩) rfl (by decide)
      (by decide) (fun t member about => ?_) resolvesToo foundExtension (by decide)
      (fun list path _ => ?_) resolvesMerged
    · have edge : (lineSchema.graph none).Edge t.predicate (.iri "g") t.object := about ▸ member
      simp [edge_lineSchema] at edge
    · exact (path_fieldExtension.mp path).2 ▸ line_fieldExtension

end
end Formulary
