import Formulary.Proofs.FieldIndependence

/-!
# Resolution of generators

A generator has an outcome for every predicate that a shape of its prototypes writes, and for no
other: the steps to its scope and then one step along the predicate. What the scope leads to is the
outcome of its path, by the rule for fields (`resolve_generator_extends_scope`). The scopes are found
by one question and the predicates by another; that the second also asks for the scope multiplies its
rows and changes nothing.
-/

namespace Formulary
open Std Relation

namespace Graph

/-- A generator writes a predicate if it is one of a shape of its prototypes. -/
def Writes (g : Graph) (generator predicate : Term) : Prop :=
  g.Edge (.iri Rdf.type) generator (.iri FormNs.generator) ∧ ∃ prototype shape value,
    g.Edge (.iri FormNs.prototype) generator prototype ∧ g.Edge (.iri FormNs.shape) prototype shape ∧
      g.Edge predicate shape value

/-- The steps to a scope. -/
def scopeOutcome (g : Graph) (scope : Term) : Except Defect Chain :=
  if g.objects scope (.iri Sh.path) = [] then .error .missingScopePath else g.outcome scope

/-- The steps before those that a generator writes. -/
def base (g : Graph) (generator : Term) : Except Defect Chain :=
  match g.objects generator (.iri FormNs.scope) with
  | [] => .ok []
  | [scope] => g.scopeOutcome scope
  | _ :: _ :: _ => .error (.ambiguous generator)

variable {g : Graph} {generator scope : Term}

theorem base_of_none (none : ∀ scope, ¬ g.Edge (.iri FormNs.scope) generator scope) :
    g.base generator = .ok [] := by
  have nothing : g.objects generator (.iri FormNs.scope) = [] :=
    List.eq_nil_iff_forall_not_mem.mpr fun scope member => none scope (mem_objects.mp member)
  rw [base, nothing]

theorem base_of_single (alone : ∀ other, g.Edge (.iri FormNs.scope) generator other ↔ other = scope) :
    g.base generator = g.scopeOutcome scope := by
  rw [base, objects_eq_singleton_iff.mpr alone]

theorem base_of_several {one two : Term} (first : g.Edge (.iri FormNs.scope) generator one)
    (second : g.Edge (.iri FormNs.scope) generator two) (apart : one ≠ two) :
    g.base generator = .error (.ambiguous generator) := by
  have here := mem_objects.mpr first
  have there := mem_objects.mpr second
  rw [base]
  cases scopes : g.objects generator (.iri FormNs.scope) with
  | nil => exact absurd (scopes ▸ here) List.not_mem_nil
  | cons scope others =>
    cases others with
    | cons => rfl
    | nil =>
      rw [scopes, List.mem_singleton] at here there
      exact absurd (here.trans there.symm) apart

theorem scopeOutcome_of_pathless (pathless : ∀ path, ¬ g.Edge (.iri Sh.path) scope path) :
    g.scopeOutcome scope = .error .missingScopePath :=
  if_pos (List.eq_nil_iff_forall_not_mem.mpr fun path member => pathless path (mem_objects.mp member))

theorem scopeOutcome_of_path {path : Term} (edge : g.Edge (.iri Sh.path) scope path) :
    g.scopeOutcome scope = g.outcome scope := if_neg (List.ne_nil_of_mem (mem_objects.mpr edge))

/-- There are steps before the written ones where there is no scope, or one with a path that has steps. -/
theorem base_eq_ok {chain : Chain} : g.base generator = .ok chain ↔
    (∀ scope, ¬ g.Edge (.iri FormNs.scope) generator scope) ∧ chain = [] ∨
      ∃ scope, (∀ other, g.Edge (.iri FormNs.scope) generator other ↔ other = scope) ∧
        (∃ path, g.Edge (.iri Sh.path) scope path) ∧ g.outcome scope = .ok chain := by
  constructor
  · intro found
    rw [base] at found
    split at found
    · rename_i none
      refine .inl ⟨fun scope inside => ?_, (Except.ok.inj found).symm⟩
      exact List.not_mem_nil (none ▸ mem_objects.mpr inside)
    · rename_i scope single
      by_cases hasPath : ∃ path, g.Edge (.iri Sh.path) scope path
      · obtain ⟨path, edge⟩ := hasPath
        rw [scopeOutcome_of_path edge] at found
        exact .inr ⟨scope, objects_eq_singleton_iff.mp single, ⟨path, edge⟩, found⟩
      · rw [scopeOutcome_of_pathless (not_exists.mp hasPath)] at found
        nomatch found
    · nomatch found
  · rintro (⟨none, rfl⟩ | ⟨scope, alone, ⟨path, edge⟩, found⟩)
    · exact base_of_none none
    · rw [base_of_single alone, scopeOutcome_of_path edge, found]

end Graph

/-! ## The rows about generators -/

namespace Question

/-- The scope of a generator, if it has any. -/
def scopes : Group := { patterns := [fact generator FormNs.scope (.var scope)] }

/-- The valuation of what the question about generators asks for. -/
def writing (owner prototype shape predicate value scope : Term) : Valuation := fun v =>
  if v = Question.generator then owner
  else if v = Question.prototype then prototype
  else if v = Question.shape then shape
  else if v = Question.predicate then predicate
  else if v = Question.value then value
  else scope

variable {g : Graph} {σ : Valuation} {schema : Dataset} {owner found : Term}

theorem generated_eq : generated = { patterns := generated.patterns, optionals := [scopes] } := rfl

theorem plain_scopes : scopes.optionals = [] := rfl

theorem holds_generated : (∀ p ∈ generated.patterns, p.Holds g σ) ↔
    g.Edge (.iri Rdf.type) (σ generator) (.iri FormNs.generator) ∧
      g.Edge (.iri FormNs.prototype) (σ generator) (σ prototype) ∧
      g.Edge (.iri FormNs.shape) (σ prototype) (σ shape) ∧ g.Edge (σ predicate) (σ shape) (σ value) := by
  simp only [generated, List.forall_mem_cons, List.not_mem_nil, false_implies, implies_true, and_true]
  rfl

theorem matches_scopes : scopes.Matches g σ ↔ g.Edge (.iri FormNs.scope) (σ generator) (σ scope) := by
  simp only [Group.Matches, scopes, List.forall_mem_cons, List.not_mem_nil, false_implies,
    implies_true, and_true]
  rfl

/-- A row is a generator with a predicate that it writes. -/
theorem exists_predicate_row : (∃ row ∈ schema.select generated,
      row.get? generator = some owner ∧ row.get? predicate = some found) ↔
    (schema.graph none).Writes owner found := by
  have bindsGenerator : generator ∈ generated.patterns.flatMap (·.vars) := by decide
  have bindsPredicate : predicate ∈ generated.patterns.flatMap (·.vars) := by decide
  rw [generated_eq]
  constructor
  · rintro ⟨row, member, atGenerator, atPredicate⟩
    obtain ⟨σ, holds, values⟩ := Dataset.exists_valuation_of_row plain_scopes member
    obtain ⟨typed, toPrototype, toShape, said⟩ := holds_generated.mp holds
    rw [values _ bindsGenerator] at atGenerator
    rw [values _ bindsPredicate] at atPredicate
    rw [← Option.some.inj atGenerator, ← Option.some.inj atPredicate]
    exact ⟨typed, _, _, _, toPrototype, toShape, said⟩
  · rintro ⟨typed, prototype, shape, value, toPrototype, toShape, said⟩
    have holds : ∀ p ∈ generated.patterns,
        p.Holds (schema.graph none) (writing owner prototype shape found value default) :=
      holds_generated.mpr ⟨typed, toPrototype, toShape, said⟩
    obtain ⟨row, member, values⟩ := Dataset.exists_row_of_holds plain_scopes holds
    exact ⟨row, member, values _ bindsGenerator, values _ bindsPredicate⟩

/-- Where a generator writes anything, its scopes stand in the rows. -/
theorem exists_scope_row : (∃ row ∈ schema.select generated,
      row.get? generator = some owner ∧ row.get? scope = some found) ↔
    (∃ predicate, (schema.graph none).Writes owner predicate) ∧
      (schema.graph none).Edge (.iri FormNs.scope) owner found := by
  have bindsGenerator : generator ∈ generated.patterns.flatMap (·.vars) := by decide
  have leavesScope : scope ∉ generated.patterns.flatMap (·.vars) := by decide
  have bindsScope : scope ∈ scopes.vars := by decide
  rw [generated_eq]
  constructor
  · rintro ⟨row, member, atGenerator, atScope⟩
    obtain ⟨σ, holds, ⟨inside, rfl⟩ | ⟨-, rfl⟩⟩ := (Dataset.mem_select_optional plain_scopes).mp member
    · obtain ⟨typed, toPrototype, toShape, said⟩ := holds_generated.mp holds
      rw [Solution.get?_assign, if_pos (List.mem_append_left _ bindsGenerator)] at atGenerator
      rw [Solution.get?_assign, if_pos (List.mem_append_right _ bindsScope)] at atScope
      rw [← Option.some.inj atGenerator, ← Option.some.inj atScope]
      exact ⟨⟨_, typed, _, _, _, toPrototype, toShape, said⟩, matches_scopes.mp inside⟩
    · rw [Solution.get?_assign, if_neg leavesScope] at atScope
      nomatch atScope
  · rintro ⟨⟨predicate, typed, prototype, shape, value, toPrototype, toShape, said⟩, inside⟩
    let σ := writing owner prototype shape predicate value found
    refine ⟨_, (Dataset.mem_select_optional plain_scopes).mpr ⟨σ, holds_generated.mpr
      ⟨typed, toPrototype, toShape, said⟩, .inl ⟨matches_scopes.mpr inside, rfl⟩⟩, ?_, ?_⟩
    · rw [Solution.get?_assign, if_pos (List.mem_append_left _ bindsGenerator)]
      rfl
    · rw [Solution.get?_assign, if_pos (List.mem_append_right _ bindsScope)]
      rfl

end Question

namespace Resolution

variable {schema : Dataset} {outcomes : SortedMap Term (Except Defect Chain)} {generator found : Term}

theorem mem_boundTo {rows : List Solution} {v : Variable} : found ∈ boundTo rows generator v ↔
    ∃ row ∈ rows, row.get? Question.generator = some generator ∧ row.get? v = some found := by
  simp only [boundTo, SortedSet.mem_ofList, List.mem_filterMap, Option.ite_none_right_eq_some]

/-- The generators that the rows are about. -/
theorem mem_generators :
    generator ∈ (schema.select Question.generated).filterMap (·.get? Question.generator) ↔
      ∃ predicate, (schema.graph none).Writes generator predicate := by
  simp only [← Question.exists_predicate_row, List.mem_filterMap]
  constructor
  · rintro ⟨row, member, atGenerator⟩
    rw [Question.generated_eq] at member
    obtain ⟨σ, -, values⟩ := Dataset.exists_valuation_of_row Question.plain_scopes member
    exact ⟨_, row, member, atGenerator, values _ (by decide)⟩
  · rintro ⟨predicate, row, member, atGenerator, -⟩
    exact ⟨row, member, atGenerator⟩

/-- The scopes in the rows are those that the generator has. -/
theorem toList_boundTo_scope (writes : ∃ predicate, (schema.graph none).Writes generator predicate) :
    (boundTo (schema.select Question.generated) generator Question.scope).toList =
      (schema.graph none).objects generator (.iri FormNs.scope) := by
  refine (SortedSet.ascending _).eq_of_mem_iff Graph.ascending_objects fun scope => ?_
  rw [SortedSet.mem_toList, mem_boundTo, Question.exists_scope_row, and_iff_right writes,
    Graph.mem_objects]

/-- The steps to the scope, found among the outcomes of all scopes, are those that the graph gives. -/
theorem scopeChain_eq (made : resolveRoots schema .generator = .ok outcomes)
    (writes : ∃ predicate, (schema.graph none).Writes generator predicate) :
    scopeChain outcomes generator
        (boundTo (schema.select Question.generated) generator Question.scope) =
      (schema.graph none).base generator := by
  rw [scopeChain, toList_boundTo_scope writes, Graph.base]
  cases scopes : (schema.graph none).objects generator (.iri FormNs.scope) with
  | nil => rfl
  | cons scope others =>
    cases others with
    | cons => rfl
    | nil =>
      obtain ⟨-, typed, -⟩ := writes
      have inside : (schema.graph none).Edge (.iri FormNs.scope) generator scope :=
        Graph.mem_objects.mp (scopes ▸ List.mem_singleton_self _)
      have found := fun outcome => @mem_resolveRoots_iff schema .generator outcomes made scope outcome
      by_cases hasPath : ∃ path, (schema.graph none).Edge (.iri Sh.path) scope path
      · obtain ⟨path, edge⟩ := hasPath
        simp only [(found _).mpr ⟨⟨path, ⟨generator, typed, inside⟩, edge⟩, rfl⟩,
          Graph.scopeOutcome_of_path edge, Option.getD_some]
      · have pathless := not_exists.mp hasPath
        have none : outcomes.get? scope = none := Option.eq_none_iff_forall_ne_some.mpr
          fun outcome got => by
            obtain ⟨⟨path, -, edge⟩, -⟩ := (found outcome).mp got
            exact pathless path edge
        simp only [none, Graph.scopeOutcome_of_pathless pathless, Option.getD_none]

/-- One outcome for each generator and each predicate that it writes. -/
theorem mem_generatedOutcomes (made : resolveRoots schema .generator = .ok outcomes) {key : FieldKey}
    {outcome : Except Defect Chain} : (key, outcome) ∈ generatedOutcomes schema outcomes ↔
      ∃ generator predicate, key = .generated generator predicate ∧
        (schema.graph none).Writes generator predicate ∧
        outcome = (· ++ [.forward predicate]) <$> (schema.graph none).base generator := by
  simp only [generatedOutcomes, List.mem_flatMap, List.mem_map, SortedSet.mem_toList,
    SortedSet.mem_ofList, mem_generators, mem_boundTo, Question.exists_predicate_row, Prod.mk.injEq]
  constructor
  · rintro ⟨generator, writes, predicate, here, rfl, rfl⟩
    exact ⟨generator, predicate, rfl, here, by rw [scopeChain_eq made writes]⟩
  · rintro ⟨generator, predicate, rfl, here, rfl⟩
    exact ⟨generator, ⟨predicate, here⟩, predicate, here, rfl, by rw [scopeChain_eq made ⟨_, here⟩]⟩

theorem nodup_generatedOutcomes : ((generatedOutcomes schema outcomes).map Prod.fst).Nodup := by
  simp only [generatedOutcomes, List.map_flatMap, List.map_map]
  refine List.nodup_flatMap.mpr ⟨fun generator _ => ?_, ?_⟩
  · exact (SortedSet.nodup_toList _).map fun a b same => (FieldKey.generated.inj same).2
  · refine (SortedSet.nodup_toList _).imp fun {one two} apart key here there => ?_
    obtain ⟨_, -, rfl⟩ := List.mem_map.mp here
    obtain ⟨_, -, same⟩ := List.mem_map.mp there
    exact apart (FieldKey.generated.inj same).1.symm

end Resolution

/-! ## The outcomes of generators -/

section
variable {schema : Dataset} {resolution : Resolution}

/-- Every predicate that a generator writes has one step after the base of the generator. -/
theorem records_generated_iff (resolves : schema.resolve .generator = .ok resolution) {key : FieldKey}
    {outcome : Except Defect Chain} : resolution.Records key outcome ↔
      ∃ generator predicate, key = .generated generator predicate ∧
        (schema.graph none).Writes generator predicate ∧
        outcome = (· ++ [.forward predicate]) <$> (schema.graph none).base generator := by
  obtain ⟨outcomes, roots, rfl⟩ := return_eq_ok.mp resolves
  rw [Resolution.records_ofOutcomes Resolution.nodup_generatedOutcomes,
    Resolution.mem_generatedOutcomes roots]

theorem nodup_keys_resolve_generator (resolves : schema.resolve .generator = .ok resolution) :
    resolution.keys.Nodup := by
  obtain ⟨outcomes, roots, rfl⟩ := return_eq_ok.mp resolves
  exact Resolution.nodup_keys_ofOutcomes Resolution.nodup_generatedOutcomes

/-- A generator has one outcome for every predicate that it writes. Without a scope this is one step
along the predicate. With one scope it is that step after the path of the scope, or the defect of that
path, by the rule by which a field of the same path is resolved; with more scopes it is a defect. -/
theorem resolve_generator_extends_scope (resolves : schema.resolve .generator = .ok resolution) :
    resolution.keys.Nodup ∧
    (∀ key, key ∈ resolution.keys ↔ ∃ generator predicate, key = .generated generator predicate ∧
      (schema.graph none).Writes generator predicate) ∧
    ∀ generator predicate, (schema.graph none).Writes generator predicate →
      ((∀ scope, ¬ (schema.graph none).Edge (.iri FormNs.scope) generator scope) →
        resolution.Records (.generated generator predicate) (.ok [.forward predicate])) ∧
      (∀ scope, (∀ other, (schema.graph none).Edge (.iri FormNs.scope) generator other ↔
          other = scope) →
        ((∀ path, ¬ (schema.graph none).Edge (.iri Sh.path) scope path) →
          resolution.Records (.generated generator predicate) (.error .missingScopePath)) ∧
        ((∃ path, (schema.graph none).Edge (.iri Sh.path) scope path) →
          resolution.Records (.generated generator predicate)
              ((· ++ [.forward predicate]) <$> (schema.graph none).outcome scope) ∧
            ∀ (fields : Dataset) (r : Resolution), fields.resolve .field = .ok r →
              (fields.graph none).IsRoot .field scope →
              (fields.graph none).SamePath (schema.graph none) scope →
              ∀ outcome, r.Records (.field scope) outcome ↔
                outcome = (schema.graph none).outcome scope)) ∧
      ∀ one two, (schema.graph none).Edge (.iri FormNs.scope) generator one →
        (schema.graph none).Edge (.iri FormNs.scope) generator two → one ≠ two →
        resolution.Records (.generated generator predicate) (.error (.ambiguous generator)) := by
  refine ⟨nodup_keys_resolve_generator resolves, fun key => ?_, fun generator predicate writes => ?_⟩
  · simp only [Resolution.mem_keys, records_generated_iff resolves]
    constructor
    · rintro ⟨outcome, generator, predicate, same, writes, -⟩
      exact ⟨generator, predicate, same, writes⟩
    · rintro ⟨generator, predicate, same, writes⟩
      exact ⟨_, generator, predicate, same, writes, rfl⟩
  have recorded : ∀ base, (schema.graph none).base generator = base →
      resolution.Records (.generated generator predicate) ((· ++ [.forward predicate]) <$> base) :=
    fun base same => (records_generated_iff resolves).mpr ⟨_, _, rfl, writes, by rw [same]⟩
  refine ⟨fun none => recorded (.ok []) (Graph.base_of_none none), fun scope alone => ⟨?_, ?_⟩, ?_⟩
  · intro pathless
    exact recorded (.error .missingScopePath)
      ((Graph.base_of_single alone).trans (Graph.scopeOutcome_of_pathless pathless))
  · rintro ⟨path, edge⟩
    refine ⟨recorded _ ((Graph.base_of_single alone).trans (Graph.scopeOutcome_of_path edge)), ?_⟩
    intro fields r fieldsResolve isField same outcome
    simp only [records_field_iff fieldsResolve, FieldKey.field.injEq, exists_eq_left', Graph.Starts,
      isField, true_and, same.outcome_eq]
    exact and_iff_right ⟨path, (same.paths path).mpr edge⟩
  · intro one two first second apart
    exact recorded (.error (.ambiguous generator)) (Graph.base_of_several first second apart)

/-- A generator whose scope is the field of one list. -/
def scopedGenerator : List Triple :=
  [⟨.iri "g", .iri Rdf.type, .iri FormNs.generator⟩, ⟨.iri "g", .iri FormNs.scope, .iri "f"⟩,
   ⟨.iri "g", .iri FormNs.prototype, .blank "x"⟩, ⟨.blank "x", .iri FormNs.shape, .blank "h"⟩,
   ⟨.blank "h", .iri Mu.uuid, .plain ""⟩]

/-- The predicate is written one step after the list of the scope, which as a field gets just that
list. -/
theorem resolve_generator_extends_scope_line : ∃ resolution r,
    (lineSchemaWith scopedGenerator).resolve .generator = .ok resolution ∧
      lineSchema.resolve .field = .ok r ∧
      r.Records (.field (.iri "f")) (.ok [.inverse (.iri "p"), .forward (.iri "q")]) ∧
      resolution.Records (.generated (.iri "g") (.iri Mu.uuid))
        (.ok [.inverse (.iri "p"), .forward (.iri "q"), .forward (.iri Mu.uuid)]) := by
  have foreign : Foreign scopedGenerator := ⟨by decide, by decide⟩
  obtain ⟨resolution, resolves⟩ := foreign.exists_resolve .generator
  obtain ⟨r, fieldsResolve⟩ : ∃ r, lineSchema.resolve .field = .ok r :=
    exists_resolve (fun _ _ _ => supported_lineSchema) fun _ _ _ => supported_lineSchema
  have isField : (lineSchema.graph none).IsRoot .field (.iri "f") := edge_lineSchema.mpr (.inl (by simp))
  have samePath : (lineSchema.graph none).SamePath ((lineSchemaWith scopedGenerator).graph none)
      (.iri "f") := .of_concerns fun _ => foreign.same
  have writes : ((lineSchemaWith scopedGenerator).graph none).Writes (.iri "g") (.iri Mu.uuid) :=
    ⟨(edge_lineSchemaWith (by simp)).mpr (by simp [scopedGenerator]), .blank "x", .blank "h", .plain "",
      (edge_lineSchemaWith (by simp)).mpr (by simp [scopedGenerator]),
      (edge_lineSchemaWith (by simp)).mpr (by simp [scopedGenerator]),
      (edge_lineSchemaWith (by simp)).mpr (by simp [scopedGenerator])⟩
  have alone : ∀ other, ((lineSchemaWith scopedGenerator).graph none).Edge (.iri FormNs.scope) (.iri "g")
      other ↔ other = .iri "f" := fun other => by
    rw [edge_lineSchemaWith (by simp)]
    simp [scopedGenerator, FormNs.scope, Rdf.type, FormNs.prototype]
  have path : ((lineSchemaWith scopedGenerator).graph none).Edge (.iri Sh.path) (.iri "f") (.blank "c") :=
    (samePath.paths _).mp (edge_lineSchema.mpr (.inr (.inl (by simp))))
  have bare : ∀ element, ¬ (lineSchema.graph none).Edge (.iri Rdf.first) (.iri Rdf.nil) element :=
    fun element first => by simp [first_lineSchema] at first
  have outcome : ((lineSchemaWith scopedGenerator).graph none).outcome (.iri "f") =
      .ok [.inverse (.iri "p"), .forward (.iri "q")] := by
    rw [← samePath.outcome_eq, Graph.outcome_eq_readPath bare fun _ _ _ => unbranched_lineSchema,
      readPath_lineSchema]
  obtain ⟨recorded, byField⟩ := ((resolve_generator_extends_scope resolves).2.2 _ _ writes).2.1 _ alone
    |>.2 ⟨_, path⟩
  rw [outcome] at recorded byField
  exact ⟨resolution, r, resolves, fieldsResolve,
    (byField lineSchema r fieldsResolve isField samePath _).mpr rfl, recorded⟩

end
end Formulary
