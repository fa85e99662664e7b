import Formulary.Proofs.ForkedLists
import Formulary.Proofs.GeneratorResolution
import Formulary.Proofs.Relabelling
import Formulary.Proofs.UnsupportedModifiers

/-!
# Independence of labels

The labels of blank nodes say nothing. A renaming that keeps them apart leads every list that is passed
to a list that is passed by the same steps, and every cell that is not supported to one that is not; so
the two schemas resolve alike (`resolve_relabel`). That some choices among the rows go by the order of
terms, and so by labels, is not seen in any chain, nor in which keys have none.
-/

namespace Formulary
open Std Relation

/-- The key with the field or the generator renamed. A written predicate is not a blank node. -/
def FieldKey.relabel (rename : String → String) : FieldKey → FieldKey
  | .field f => .field (f.relabel rename)
  | .generated generator predicate => .generated (generator.relabel rename) predicate

namespace Graph.Relabelled

variable {there back : String → String} {g h : Graph} {a b cell predicate : Term}

/-! ## Steps -/

/-- A renamed element stands for the same step: steps are made of IRIs. -/
theorem stepOf (same : Relabelled there back g h) {step : Step}
    (returns : (a.relabel there).relabel back = a) (decoded : g.stepOf a = .ok step) :
    h.stepOf (a.relabel there) = .ok step := by
  cases a with
  | iri value => exact decoded
  | literal value => exact decoded
  | blank label =>
    obtain ⟨target, only, isIri, rfl⟩ := stepOf_blank_eq_ok.mp decoded
    have kept : target.relabel there = target := Term.relabel_of_isIri isIri
    refine stepOf_blank_eq_ok.mpr ⟨target, fun t => ⟨fun ⟨member, about⟩ => ?_, ?_⟩, isIri, rfl⟩
    · have before := (only (t.relabel back)).mp
        ⟨same.mem_back t member, (congrArg (Term.relabel back) about).trans returns⟩
      rw [← same.returns_back t member, before, Triple.relabel, kept]
      rfl
    · rintro rfl
      have said := same.mem _ ((only _).mpr rfl).1
      rw [Triple.relabel, kept] at said
      exact ⟨said, rfl⟩

theorem decode? (same : Relabelled there back g h) {step : Step}
    (decoded : g.decode? cell = some (.ok step)) :
    h.decode? (cell.relabel there) = some (.ok step) := by
  obtain ⟨element, only, stands⟩ := decode?_eq_ok.mp decoded
  have returns := same.target_returns ((only element).mpr rfl)
  exact decode?_eq_ok.mpr ⟨_, same.alone only, same.stepOf returns stands⟩

/-- Of the cells after a renamed one, those that carry a step are the renamed ones that do. -/
theorem exists_decode? (same : Relabelled there back g h)
    (returns : (cell.relabel there).relabel back = cell) {step : Step}
    (rest : h.Edge (.iri Rdf.rest) (cell.relabel there) b) (decoded : h.decode? b = some (.ok step)) :
    ∃ c, c.relabel there = b ∧ g.Edge (.iri Rdf.rest) cell c ∧ g.decode? c = some (.ok step) :=
  ⟨b.relabel back, same.symm.target_returns rest, returns ▸ same.symm.edge rest,
    same.symm.decode? decoded⟩

/-! ## Lists and paths -/

/-- The renamed list is passed by the same steps. -/
theorem passes (same : Relabelled there back g h) {chain : Chain} (passes : g.Passes cell chain) :
    h.Passes (cell.relabel there) chain := by
  induction passes with
  | last decoded ends alone =>
    refine .last (same.decode? decoded) (same.edge ends) fun next later rest carries => ?_
    obtain ⟨before, -, edge, step⟩ := same.exists_decode? (same.source_returns ends) rest carries
    exact alone before later edge step
  | more decoded rest only _ ih =>
    refine .more (same.decode? decoded) (same.edge rest) (fun other later edge carries => ?_) ih
    obtain ⟨before, rfl, edge, step⟩ := same.exists_decode? (same.source_returns rest) edge carries
    rw [only before later edge step]

theorem outcome (same : Relabelled there back g h) {chain : Chain} (found : g.outcome a = .ok chain) :
    h.outcome (a.relabel there) = .ok chain := by
  rcases outcome_eq_ok.mp found with ⟨predicate, only, rfl⟩ | ⟨label, only, passes⟩
  · exact outcome_eq_ok.mpr (.inl ⟨predicate, same.alone only, rfl⟩)
  · exact outcome_eq_ok.mpr (.inr ⟨there label, same.alone only, same.passes passes⟩)

theorem isRoot (same : Relabelled there back g h) {kind : RootKind} (isRoot : g.IsRoot kind a) :
    h.IsRoot kind (a.relabel there) := by
  cases kind with
  | field => exact same.edge isRoot
  | generator =>
    obtain ⟨generator, typed, inside⟩ := isRoot
    exact ⟨_, same.edge typed, same.edge inside⟩

theorem starts (same : Relabelled there back g h) {kind : RootKind} (starts : g.Starts kind a b) :
    h.Starts kind (a.relabel there) (b.relabel there) := ⟨same.isRoot starts.1, same.edge starts.2⟩

/-- A cell of a list that is not supported is not supported under its new label. -/
theorem unsupported (same : Relabelled there back g h) {kind : RootKind} {modifier : Term}
    (inside : g.Contains kind a cell) (unsupported : g.Unsupported cell modifier) :
    ∃ root cell, h.Contains kind root cell ∧ h.Unsupported cell modifier := by
  obtain ⟨list, starts, path⟩ := inside
  obtain ⟨element, only, blank, other, target, said⟩ := unsupported
  exact ⟨_, _, ⟨_, same.starts starts, same.path path⟩,
    _, same.alone only, by rwa [Term.isBlank_relabel], other, _, same.mem _ said⟩

theorem writes (same : Relabelled there back g h) (writes : g.Writes a predicate) :
    h.Writes (a.relabel there) predicate := by
  obtain ⟨typed, prototype, shape, value, toPrototype, toShape, said⟩ := writes
  exact ⟨same.edge typed, _, _, _, same.edge toPrototype, same.edge toShape, same.edge said⟩

theorem base (same : Relabelled there back g h) (returns : (a.relabel there).relabel back = a)
    {chain : Chain} (found : g.base a = .ok chain) : h.base (a.relabel there) = .ok chain := by
  rcases base_eq_ok.mp found with ⟨none, rfl⟩ | ⟨scope, only, ⟨path, edge⟩, found⟩
  · refine base_eq_ok.mpr (.inl ⟨fun scope inside => ?_, rfl⟩)
    obtain ⟨before, -, edge⟩ := (same.edge_iff returns).mp inside
    exact none before edge
  · exact base_eq_ok.mpr (.inr ⟨_, same.alone only, ⟨_, same.edge edge⟩, same.outcome found⟩)

end Graph.Relabelled

/-! ## Keys of either kind -/

namespace Graph

/-- The graph has the key for one of its own, by what is asked for roots of the kind. -/
def Declares (g : Graph) : RootKind → FieldKey → Prop
  | .field, .field f => ∃ path, g.Starts .field f path
  | .generator, .generated generator predicate => g.Writes generator predicate
  | _, _ => False

/-- The steps for a key, or why there are none. -/
def result (g : Graph) : FieldKey → Except Defect Chain
  | .field f => g.outcome f
  | .generated generator predicate => (· ++ [.forward predicate]) <$> g.base generator

namespace Relabelled

variable {there back : String → String} {g h : Graph} {kind : RootKind} {key : FieldKey}

theorem declares (same : Relabelled there back g h) (declares : g.Declares kind key) :
    h.Declares kind (key.relabel there) := by
  match kind, key, declares with
  | .field, .field _, ⟨_, starts⟩ => exact ⟨_, same.starts starts⟩
  | .generator, .generated _ _, writes => exact same.writes writes

theorem key_returns (same : Relabelled there back g h) (declares : g.Declares kind key) :
    (key.relabel there).relabel back = key := by
  match kind, key, declares with
  | .field, .field _, ⟨_, _, path⟩ => exact congrArg FieldKey.field (same.source_returns path)
  | .generator, .generated _ predicate, ⟨typed, _⟩ =>
    exact congrArg (FieldKey.generated · predicate) (same.source_returns typed)

/-- The keys of the renamed graph are the renamed keys. -/
theorem declares_iff (same : Relabelled there back g h) :
    h.Declares kind key ↔ ∃ old, old.relabel there = key ∧ g.Declares kind old := by
  constructor
  · exact fun declares => ⟨_, same.symm.key_returns declares, same.symm.declares declares⟩
  · rintro ⟨old, rfl, declares⟩
    exact same.declares declares

theorem result (same : Relabelled there back g h) (declares : g.Declares kind key) {chain : Chain}
    (found : g.result key = .ok chain) : h.result (key.relabel there) = .ok chain := by
  match kind, key, declares with
  | .field, .field _, _ => exact same.outcome found
  | .generator, .generated _ _, ⟨typed, _⟩ =>
    obtain ⟨before, base, rfl⟩ := map_eq_ok.mp found
    exact map_eq_ok.mpr ⟨before, same.base (same.source_returns typed) base, rfl⟩

/-- A renamed key has the steps of the key. -/
theorem result_iff (same : Relabelled there back g h) (declares : g.Declares kind key)
    {chain : Chain} : h.result (key.relabel there) = .ok chain ↔ g.result key = .ok chain := by
  constructor
  · intro found
    have before := same.symm.result (same.declares declares) found
    rwa [same.key_returns declares] at before
  · exact same.result declares

end Relabelled
end Graph

/-! ## Two schemas -/

section
variable {schema renamed : Dataset} {kind : RootKind} {r : Resolution} {key : FieldKey}

theorem records_iff (resolves : schema.resolve kind = .ok r) {outcome : Except Defect Chain} :
    r.Records key outcome ↔
      (schema.graph none).Declares kind key ∧ outcome = (schema.graph none).result key := by
  cases kind with
  | field =>
    rw [records_field_iff resolves]
    cases key <;> simp [Graph.Declares, Graph.result]
  | generator =>
    rw [records_generated_iff resolves]
    cases key <;> simp [Graph.Declares, Graph.result]

theorem get?_chains_iff (resolves : schema.resolve kind = .ok r) {chain : Chain} :
    r.chains.get? key = some chain ↔
      (schema.graph none).Declares kind key ∧ (schema.graph none).result key = .ok chain := by
  have recorded : r.Records key (.ok chain) ↔ _ := records_iff resolves
  exact recorded.trans (and_congr_right fun _ => eq_comm)

/-- The keys that are reported are those without a chain. -/
theorem mem_malformed_iff (resolves : schema.resolve kind = .ok r) :
    key ∈ r.malformed.map Prod.fst ↔ (schema.graph none).Declares kind key ∧
      ∀ chain, (schema.graph none).result key ≠ .ok chain := by
  have reported : key ∈ r.malformed.map Prod.fst ↔ ∃ defect, r.Records key (.error defect) := by
    simp [Resolution.Records]
  simp only [reported, records_iff resolves]
  cases found : (schema.graph none).result key <;> simp

theorem exists_error_of_relabelled {there back : String → String}
    (same : Graph.Relabelled there back (schema.graph none) (renamed.graph none))
    (failed : ∃ error, schema.resolve kind = .error error) :
    ∃ error, renamed.resolve kind = .error error := by
  obtain ⟨error, failed⟩ := failed
  obtain ⟨root, cell, modifier, inside, unsupported, -⟩ := exists_unsupported_of_resolve failed
  obtain ⟨root, cell, inside, unsupported⟩ := same.unsupported inside unsupported
  exact exists_resolve_eq_error inside unsupported

/-- A schema with its blank nodes renamed apart resolves where the schema does. Its chains are then
those of the schema, of the same steps, under the renamed keys; and the keys that it reports are those
that the schema reports, renamed. -/
theorem resolve_relabel (kind : RootKind) {rename : String → String}
    (apart : Set.InjOn rename (schema.graph none).labels)
    (renames : renamed.graph none = (schema.graph none).relabel rename) :
    ((∃ error, renamed.resolve kind = .error error) ↔ ∃ error, schema.resolve kind = .error error) ∧
    ∀ r s, schema.resolve kind = .ok r → renamed.resolve kind = .ok s →
      (∀ key chain, s.chains.get? key = some chain ↔
        ∃ old, old.relabel rename = key ∧ r.chains.get? old = some chain) ∧
      ∀ key, key ∈ s.malformed.map Prod.fst ↔
        ∃ old, old.relabel rename = key ∧ old ∈ r.malformed.map Prod.fst := by
  obtain ⟨back, same⟩ := Graph.Relabelled.exists_back apart
  rw [← renames] at same
  refine ⟨⟨exists_error_of_relabelled same.symm, exists_error_of_relabelled same⟩, ?_⟩
  intro r s resolves resolvesToo
  refine ⟨fun key chain => ?_, fun key => ?_⟩
  · simp only [get?_chains_iff resolves, get?_chains_iff resolvesToo, same.declares_iff]
    constructor
    · rintro ⟨⟨old, rfl, declares⟩, found⟩
      exact ⟨old, rfl, declares, (same.result_iff declares).mp found⟩
    · rintro ⟨old, rfl, declares, found⟩
      exact ⟨⟨old, rfl, declares⟩, (same.result_iff declares).mpr found⟩
  · simp only [mem_malformed_iff resolves, mem_malformed_iff resolvesToo, same.declares_iff]
    constructor
    · rintro ⟨⟨old, rfl, declares⟩, none⟩
      exact ⟨old, rfl, declares, fun chain found => none chain ((same.result_iff declares).mpr found)⟩
    · rintro ⟨old, rfl, declares, none⟩
      exact ⟨⟨old, rfl, declares⟩, fun chain found => none chain ((same.result_iff declares).mp found)⟩

/-- A second field, which is a blank node and whose list is the end of that of the first. -/
def sharedTail : List Triple :=
  [⟨.blank "k", .iri Rdf.type, .iri FormNs.field⟩, ⟨.blank "k", .iri Sh.path, .blank "d"⟩]

theorem passes_sharedTail :
    ((lineSchemaWith sharedTail).graph none).Passes (.blank "d") [.forward (.iri "q")] := by
  have first : ∀ element, ((lineSchemaWith sharedTail).graph none).Edge (.iri Rdf.first) (.blank "d")
      element ↔ element = .iri "q" := fun element => by
    rw [Graph.Edge, mem_lineSchemaWith]
    exact (or_iff_left (by simp [sharedTail])).trans (first_lineSchema.trans (by simp))
  have rest : ∀ next, ((lineSchemaWith sharedTail).graph none).Edge (.iri Rdf.rest) (.blank "d")
      next ↔ next = .iri Rdf.nil := fun next => by
    rw [Graph.Edge, mem_lineSchemaWith]
    exact (or_iff_left (by simp [sharedTail])).trans (rest_lineSchema.trans (by simp))
  refine .last (Graph.decode?_eq_ok.mpr ⟨_, first, rfl⟩) ((rest _).mpr rfl)
    fun next later edge carries => ?_
  obtain rfl := (rest next).mp edge
  obtain ⟨element, bare⟩ := Graph.edge_first_of_decode? carries
  rcases mem_lineSchemaWith.mp bare with bare | bare
  · simpa using first_lineSchema.mp bare
  · simp [sharedTail] at bare

/-- The second field, and the first cell of the first, change their labels with each other. -/
theorem resolve_relabel_sharedTail : ∃ r s, (lineSchemaWith sharedTail).resolve .field = .ok r ∧
    (Dataset.ofGraph (((lineSchemaWith sharedTail).graph none).relabel (Equiv.swap "c" "k"))).resolve
      .field = .ok s ∧
    r.chains.get? (.field (.blank "k")) = some [.forward (.iri "q")] ∧
    s.chains.get? (.field (.blank "c")) = some [.forward (.iri "q")] := by
  have foreign : Foreign sharedTail := ⟨by decide, by decide⟩
  obtain ⟨r, resolves⟩ := foreign.exists_resolve .field
  have apart : Set.InjOn (Equiv.swap "c" "k") ((lineSchemaWith sharedTail).graph none).labels :=
    (Equiv.injective _).injOn
  obtain ⟨fails, alike⟩ := resolve_relabel .field apart (Dataset.graph_ofGraph.trans (if_pos rfl))
  have edge : ∀ predicate b, ((lineSchemaWith sharedTail).graph none).Edge predicate (.blank "k") b ↔
      ⟨.blank "k", predicate, b⟩ ∈ sharedTail := fun _ _ => edge_lineSchemaWith (by simp)
  have path : ∀ b, ((lineSchemaWith sharedTail).graph none).Edge (.iri Sh.path) (.blank "k") b ↔
      b = .blank "d" := fun b => (edge _ b).trans (by simp [sharedTail, Sh.path, Rdf.type])
  have found : r.chains.get? (.field (.blank "k")) = some [.forward (.iri "q")] :=
    (get?_chains_iff resolves).mpr ⟨⟨_, (edge _ _).mpr (by simp [sharedTail]), (path _).mpr rfl⟩,
      Graph.outcome_eq_ok.mpr (.inr ⟨_, path, passes_sharedTail⟩)⟩
  cases outcome : (Dataset.ofGraph (((lineSchemaWith sharedTail).graph none).relabel
      (Equiv.swap "c" "k"))).resolve .field with
  | error error =>
    obtain ⟨error, failed⟩ := fails.mp ⟨error, outcome⟩
    cases resolves.symm.trans failed
  | ok s =>
    have renamed : (FieldKey.field (.blank "k")).relabel (Equiv.swap "c" "k") = .field (.blank "c") := by
      simp [FieldKey.relabel]
    exact ⟨r, s, resolves, rfl, found, ((alike r s resolves outcome).1 _ _).mpr ⟨_, renamed, found⟩⟩

end
end Formulary
