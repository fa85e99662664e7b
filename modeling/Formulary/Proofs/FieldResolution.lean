import Formulary.Proofs.ListWalk
import Formulary.Resolution

/-!
# Resolution of fields

Every field that has a path is resolved, once: to the chain of its path, or to the defect for which
there is none. Either is what reading the path directly gives (`resolve_field_reads_paths`), whatever
other fields there are and whatever cells their lists share with this one.
-/

namespace Formulary
open Std Relation

namespace Resolution

/-- The resolution has the given outcome for a key. -/
def Records (r : Resolution) (key : FieldKey) : Except Defect Chain → Prop
  | .ok chain => r.chains.get? key = some chain
  | .error defect => (key, defect) ∈ r.malformed

/-- All keys that have an outcome. -/
def keys (r : Resolution) : List FieldKey := r.chains.keys ++ r.malformed.map Prod.fst

variable {outcomes : List (FieldKey × Except Defect Chain)} {key : FieldKey}

/-- Entries that are kept under their keys have keys among the old ones, in the same order. -/
private theorem map_fst_filterMap_sublist {κ β γ : Type} {keep : κ × β → Option (κ × γ)}
    (same : ∀ a b, keep a = some b → b.1 = a.1) (list : List (κ × β)) :
    ((list.filterMap keep).map Prod.fst).Sublist (list.map Prod.fst) := by
  induction list with
  | nil => exact .slnil
  | cons a rest ih =>
    cases kept : keep a with
    | none =>
      rw [List.filterMap_cons_none kept]
      exact .cons _ ih
    | some b =>
      rw [List.filterMap_cons_some kept, List.map_cons, same a b kept]
      exact .cons_cons _ ih

theorem mem_malformed_ofOutcomes {defect : Defect} :
    (key, defect) ∈ (ofOutcomes outcomes).malformed ↔ (key, .error defect) ∈ outcomes := by
  simp only [ofOutcomes, List.mem_filterMap]
  constructor
  · rintro ⟨⟨other, _ | _⟩, member, found⟩
    · obtain ⟨rfl, rfl⟩ := Prod.mk.inj (Option.some.inj found)
      exact member
    · exact absurd found nofun
  · exact fun member => ⟨_, member, rfl⟩

theorem get?_chains_ofOutcomes (distinct : (outcomes.map Prod.fst).Nodup) {chain : Chain} :
    (ofOutcomes outcomes).chains.get? key = some chain ↔ (key, .ok chain) ∈ outcomes := by
  refine (SortedMap.get?_ofList (distinct.sublist (map_fst_filterMap_sublist ?_ outcomes))).trans ?_
  · rintro ⟨other, _ | _⟩ entry ⟨⟩
    rfl
  · rw [List.mem_filterMap]
    constructor
    · rintro ⟨⟨other, _ | _⟩, member, found⟩
      · exact absurd found nofun
      · obtain ⟨rfl, rfl⟩ := Prod.mk.inj (Option.some.inj found)
        exact member
    · exact fun member => ⟨_, member, rfl⟩

/-- Sorting outcomes loses none and makes none up. -/
theorem records_ofOutcomes (distinct : (outcomes.map Prod.fst).Nodup) {outcome : Except Defect Chain} :
    (ofOutcomes outcomes).Records key outcome ↔ (key, outcome) ∈ outcomes := by
  cases outcome with
  | ok chain => exact get?_chains_ofOutcomes distinct
  | error defect => exact mem_malformed_ofOutcomes

theorem mem_keys {r : Resolution} : key ∈ r.keys ↔ ∃ outcome, r.Records key outcome := by
  rw [keys, List.mem_append, SortedMap.mem_keys, List.mem_map]
  constructor
  · rintro (⟨chain, found⟩ | ⟨⟨key, defect⟩, member, rfl⟩)
    · exact ⟨.ok chain, found⟩
    · exact ⟨.error defect, member⟩
  · rintro ⟨_ | _, recorded⟩
    · exact .inr ⟨_, recorded, rfl⟩
    · exact .inl ⟨_, recorded⟩

theorem nodup_keys_ofOutcomes (distinct : (outcomes.map Prod.fst).Nodup) :
    (ofOutcomes outcomes).keys.Nodup := by
  refine List.nodup_append'.mpr ⟨SortedMap.nodup_keys _,
    distinct.sublist (map_fst_filterMap_sublist ?_ outcomes), fun key here there => ?_⟩
  · rintro ⟨other, _ | _⟩ entry ⟨⟩
    rfl
  · obtain ⟨chain, resolved⟩ := SortedMap.mem_keys.mp here
    obtain ⟨⟨_, defect⟩, member, rfl⟩ := List.mem_map.mp there
    have one := (get?_chains_ofOutcomes distinct).mp resolved
    have other := mem_malformed_ofOutcomes.mp member
    have same := List.inj_on_of_nodup_map distinct one other rfl
    exact absurd (congrArg Prod.snd same) nofun

/-- The outcomes of roots, recorded under the keys of fields. -/
theorem records_fields (outcomes : SortedMap Term (Except Defect Chain)) :
    let recorded := ofOutcomes (outcomes.entries.map fun entry => (.field entry.1, entry.2))
    recorded.keys.Nodup ∧ ∀ key outcome, recorded.Records key outcome ↔
      ∃ field, key = .field field ∧ (field, outcome) ∈ outcomes.entries := by
  have distinct : ((outcomes.entries.map fun entry => (FieldKey.field entry.1, entry.2)).map
      Prod.fst).Nodup := by
    have keys : (outcomes.keys.map FieldKey.field).Nodup :=
      (SortedMap.nodup_keys outcomes).map fun a b same => FieldKey.field.inj same
    rw [SortedMap.keys, List.map_map] at keys
    rw [List.map_map]
    exact keys
  refine ⟨nodup_keys_ofOutcomes distinct, fun key outcome => ?_⟩
  rw [records_ofOutcomes distinct, List.mem_map]
  constructor
  · rintro ⟨entry, member, same⟩
    obtain ⟨rfl, rfl⟩ := Prod.mk.inj same
    exact ⟨entry.1, rfl, member⟩
  · rintro ⟨field, rfl, member⟩
    exact ⟨_, member, rfl⟩

end Resolution

/-! ## The outcome of a path -/

namespace Graph

/-- The steps of the path of a root, or why there are none. -/
def outcome (g : Graph) (root : Term) : Except Defect Chain :=
  match g.objects root (.iri Sh.path) with
  | [.iri predicate] => .ok [.forward (.iri predicate)]
  | [.blank label] => g.walkList (.blank label)
  | [.literal _] => .error .notAPath
  | _ => .error (.ambiguous root)

/-- Where no single list branches, the outcome of a path is what reading it gives. -/
theorem outcome_eq_readPath {g : Graph} {root : Term}
    (bare : ∀ element, ¬ g.Edge (.iri Rdf.first) (.iri Rdf.nil) element)
    (unbranched : ∀ cell, g.objects root (.iri Sh.path) = [cell] → cell.isBlank →
      g.Unbranched cell) : g.outcome root = g.readPath root := by
  rw [outcome, readPath]
  cases paths : g.objects root (.iri Sh.path) with
  | nil => rfl
  | cons path others =>
    cases others with
    | cons => cases path <;> rfl
    | nil =>
      cases path with
      | iri predicate => rfl
      | literal value => rfl
      | blank label => exact walkList_eq_readList bare (unbranched _ paths rfl)

end Graph

/-! ## The outcomes of the roots -/

section
variable {schema : Dataset} {kind : RootKind} {root path : Term}

/-- A row of the first question is a root with one of its path values. -/
theorem Question.exists_path_row : (∃ row ∈ schema.select (paths kind),
      row.get? Question.root = some root ∧ row.get? Question.path = some path) ↔
    (schema.graph none).Starts kind root path := by
  have bindsRoot : Question.root ∈ (paths kind).vars := by cases kind <;> decide
  have bindsPath : Question.path ∈ (paths kind).vars := by cases kind <;> decide
  have holds : ∀ σ : Valuation, (paths kind).Matches (schema.graph none) σ ↔
      (∀ p ∈ roots kind, p.Holds (schema.graph none) σ) ∧
        (schema.graph none).Edge (.iri Sh.path) (σ Question.root) (σ Question.path) := fun σ => by
    simp only [Group.Matches, paths, List.forall_mem_append, List.forall_mem_cons, List.not_mem_nil,
      false_implies, implies_true, and_true]
    rfl
  constructor
  · rintro ⟨row, found, atRoot, atPath⟩
    obtain ⟨σ, -, matched, rfl⟩ := (Group.mem_evaluate_plain rfl).mp found
    rw [Solution.get?_assign, if_pos bindsRoot] at atRoot
    rw [Solution.get?_assign, if_pos bindsPath] at atPath
    obtain ⟨isRoot, edge⟩ := (holds σ).mp matched
    rw [← Option.some.inj atRoot, ← Option.some.inj atPath]
    exact ⟨isRoot_of_holds isRoot, edge⟩
  · rintro ⟨isRoot, edge⟩
    obtain ⟨owner, holdsRoots⟩ := exists_owner isRoot
    let σ : Valuation := binding owner root default default default path
    refine ⟨Solution.assign ∅ (paths kind).vars σ, (Group.mem_evaluate_plain rfl).mpr
      ⟨σ, Solution.agrees_empty, (holds σ).mpr ⟨holdsRoots _ _ _ _, edge⟩, rfl⟩, ?_, ?_⟩
    · rw [Solution.get?_assign, if_pos bindsRoot]
      rfl
    · rw [Solution.get?_assign, if_pos bindsPath]
      rfl

theorem mem_pathsOf : path ∈ pathsOf (schema.select (Question.paths kind)) root ↔
    (schema.graph none).Starts kind root path := by
  simp only [pathsOf, SortedSet.mem_ofList, List.mem_filterMap, Option.ite_none_right_eq_some,
    ← Question.exists_path_row]

/-- A root has one path value by the rows where it has one in the schema. -/
theorem only?_pathsOf (isRoot : (schema.graph none).IsRoot kind root) :
    (pathsOf (schema.select (Question.paths kind)) root).only? = some path ↔
      (schema.graph none).objects root (.iri Sh.path) = [path] := by
  rw [SortedSet.only?_eq_some_iff, Graph.objects_eq_singleton_iff]
  simp only [mem_pathsOf, Graph.Starts, isRoot, true_and]

/-- Every row of the first question has both a root and a path. -/
theorem mem_roots : root ∈ (schema.select (Question.paths kind)).filterMap (·.get? Question.root) ↔
    ∃ path, (schema.graph none).Starts kind root path := by
  rw [List.mem_filterMap]
  constructor
  · rintro ⟨row, found, atRoot⟩
    have bindsPath : Question.path ∈ (Question.paths kind).vars := by cases kind <;> decide
    obtain ⟨σ, -, -, rfl⟩ := (Group.mem_evaluate_plain rfl).mp found
    refine ⟨σ Question.path, Question.exists_path_row.mp ⟨_, found, atRoot, ?_⟩⟩
    rw [Solution.get?_assign, if_pos bindsPath]
  · rintro ⟨path, starts⟩
    obtain ⟨row, found, atRoot, -⟩ := Question.exists_path_row.mpr starts
    exact ⟨row, found, atRoot⟩

/-- A root has the outcome of its path, whatever kind it is of and whatever other roots there are. -/
theorem Lists.chain_eq_outcome {l : Lists} (made : ofSchema schema kind = .ok l)
    (isRoot : (schema.graph none).IsRoot kind root) :
    l.chain schema root (pathsOf (schema.select (Question.paths kind)) root) =
      (schema.graph none).outcome root := by
  have only := fun path => @only?_pathsOf schema kind root path isRoot
  have several : (∀ path, (schema.graph none).objects root (.iri Sh.path) ≠ [path]) →
      (pathsOf (schema.select (Question.paths kind)) root).only? = none := fun notOne =>
    Option.eq_none_iff_forall_ne_some.mpr fun path one => notOne path ((only path).mp one)
  rw [chain, Graph.outcome]
  cases paths : (schema.graph none).objects root (.iri Sh.path) with
  | nil => rw [several (by simp [paths])]
  | cons path others =>
    cases others with
    | cons =>
      rw [several (by simp [paths])]
      cases path <;> rfl
    | nil =>
      rw [(only path).mpr paths]
      cases path with
      | iri predicate => rfl
      | literal value => rfl
      | blank label =>
        have edge : (schema.graph none).Edge (.iri Sh.path) root (.blank label) :=
          Graph.mem_objects.mp (paths ▸ List.mem_singleton_self _)
        exact walk_eq_walkList made ⟨isRoot, edge⟩

/-- The chain of a root is that of reading its path, where no single list branches. -/
theorem Lists.chain_eq_readPath {l : Lists} (made : ofSchema schema kind = .ok l)
    (bare : ∀ element, ¬ (schema.graph none).Edge (.iri Rdf.first) (.iri Rdf.nil) element)
    (isRoot : (schema.graph none).IsRoot kind root)
    (unbranched : ∀ cell, (schema.graph none).objects root (.iri Sh.path) = [cell] → cell.isBlank →
      (schema.graph none).Unbranched cell) :
    l.chain schema root (pathsOf (schema.select (Question.paths kind)) root) =
      (schema.graph none).readPath root :=
  (chain_eq_outcome made isRoot).trans (Graph.outcome_eq_readPath bare unbranched)

/-- Where the questions are answered, every root with a path has an outcome, and no other term. -/
theorem mem_resolveRoots {outcomes : SortedMap Term (Except Defect Chain)}
    (made : resolveRoots schema kind = .ok outcomes) : ∃ l, Lists.ofSchema schema kind = .ok l ∧
      ∀ root outcome, (root, outcome) ∈ outcomes.entries ↔
        (∃ path, (schema.graph none).Starts kind root path) ∧
          outcome = l.chain schema root (pathsOf (schema.select (Question.paths kind)) root) := by
  obtain ⟨l, lists, rfl⟩ := return_eq_ok.mp made
  refine ⟨l, lists, fun root outcome => ?_⟩
  rw [← SortedMap.get?_eq_some_iff, SortedMap.get?_ofList, List.mem_map]
  · simp only [SortedSet.mem_toList, SortedSet.mem_ofList, @mem_roots schema kind, Prod.mk.injEq]
    constructor
    · rintro ⟨_, starts, rfl, rfl⟩
      exact ⟨starts, rfl⟩
    · rintro ⟨starts, rfl⟩
      exact ⟨root, starts, rfl, rfl⟩
  · rw [List.map_map]
    simpa [Function.comp_def] using SortedSet.nodup_toList _

/-- Every root that has a path is resolved to the outcome of its path, and no other term is. -/
theorem mem_resolveRoots_iff {outcomes : SortedMap Term (Except Defect Chain)}
    (made : resolveRoots schema kind = .ok outcomes) {root : Term} {outcome : Except Defect Chain} :
    outcomes.get? root = some outcome ↔
      (∃ path, (schema.graph none).Starts kind root path) ∧
        outcome = (schema.graph none).outcome root := by
  obtain ⟨l, lists, entries⟩ := mem_resolveRoots made
  rw [SortedMap.get?_eq_some_iff, entries]
  refine and_congr_right fun ⟨_, isRoot, _⟩ => ?_
  rw [Lists.chain_eq_outcome lists isRoot]

/-- Every field that has a path has the outcome of its path. -/
theorem records_field_iff {resolution : Resolution} (resolves : schema.resolve .field = .ok resolution)
    {key : FieldKey} {outcome : Except Defect Chain} : resolution.Records key outcome ↔
      ∃ field, key = .field field ∧ (∃ path, (schema.graph none).Starts .field field path) ∧
        outcome = (schema.graph none).outcome field := by
  obtain ⟨outcomes, roots, rfl⟩ := return_eq_ok.mp resolves
  rw [(Resolution.records_fields outcomes).2]
  simp only [← SortedMap.get?_eq_some_iff, mem_resolveRoots_iff roots]

/-- A schema resolves unless something else than `sh:inversePath` is said of an element of a list. -/
theorem exists_resolve
    (heads : ∀ root cell, (schema.graph none).Starts kind root cell → (schema.graph none).Supported cell)
    (tails : ∀ root cell, (schema.graph none).Follows kind root cell →
      (schema.graph none).Supported cell) : ∃ resolution, schema.resolve kind = .ok resolution := by
  obtain ⟨l, lists⟩ := Lists.exists_ofSchema heads tails
  rw [Dataset.resolve, resolveRoots, lists]
  cases kind <;> exact ⟨_, rfl⟩

/-- A field whose path is a list of a step back and a step forward. -/
def lineSchema : Dataset := .ofGraph <| .ofList
  [⟨.iri "f", .iri Rdf.type, .iri FormNs.field⟩, ⟨.iri "f", .iri Sh.path, .blank "c"⟩,
   ⟨.blank "c", .iri Rdf.first, .blank "i"⟩, ⟨.blank "i", .iri Sh.inversePath, .iri "p"⟩,
   ⟨.blank "c", .iri Rdf.rest, .blank "d"⟩, ⟨.blank "d", .iri Rdf.first, .iri "q"⟩,
   ⟨.blank "d", .iri Rdf.rest, .iri Rdf.nil⟩]

theorem edge_lineSchema {a b predicate : Term} : (lineSchema.graph none).Edge predicate a b ↔
    a = .iri "f" ∧ predicate = .iri Rdf.type ∧ b = .iri FormNs.field ∨
      a = .iri "f" ∧ predicate = .iri Sh.path ∧ b = .blank "c" ∨
      a = .blank "c" ∧ predicate = .iri Rdf.first ∧ b = .blank "i" ∨
      a = .blank "i" ∧ predicate = .iri Sh.inversePath ∧ b = .iri "p" ∨
      a = .blank "c" ∧ predicate = .iri Rdf.rest ∧ b = .blank "d" ∨
      a = .blank "d" ∧ predicate = .iri Rdf.first ∧ b = .iri "q" ∨
      a = .blank "d" ∧ predicate = .iri Rdf.rest ∧ b = .iri Rdf.nil := by
  simp [Graph.Edge, lineSchema, Dataset.ofGraph, Dataset.graph_setGraph]

theorem first_lineSchema {a b : Term} : (lineSchema.graph none).Edge (.iri Rdf.first) a b ↔
    a = .blank "c" ∧ b = .blank "i" ∨ a = .blank "d" ∧ b = .iri "q" := by
  simp [edge_lineSchema, Rdf.first, Rdf.type, Rdf.rest, Sh.path, Sh.inversePath]

theorem rest_lineSchema {a b : Term} : (lineSchema.graph none).Edge (.iri Rdf.rest) a b ↔
    a = .blank "c" ∧ b = .blank "d" ∨ a = .blank "d" ∧ b = .iri Rdf.nil := by
  simp [edge_lineSchema, Rdf.first, Rdf.type, Rdf.rest, Sh.path, Sh.inversePath]

theorem said_lineSchema {predicate b : Term} : (lineSchema.graph none).Edge predicate (.blank "i") b ↔
    predicate = .iri Sh.inversePath ∧ b = .iri "p" := by
  simp [edge_lineSchema]

theorem unbranched_lineSchema {cell : Term} : (lineSchema.graph none).Unbranched cell := by
  intro later _ a b first second
  rcases rest_lineSchema.mp first with ⟨rfl, rfl⟩ | ⟨rfl, rfl⟩ <;>
    simpa [rest_lineSchema, eq_comm] using second

theorem supported_lineSchema {cell : Term} : (lineSchema.graph none).Supported cell := by
  intro element first blank t about
  obtain ⟨member, rfl⟩ := Graph.mem_about.mp about
  rcases first_lineSchema.mp first with ⟨-, same⟩ | ⟨-, same⟩
  · have edge : (lineSchema.graph none).Edge t.predicate (.blank "i") t.object := same ▸ member
    exact (said_lineSchema.mp edge).1
  · simp [same, Term.isBlank] at blank

theorem readPath_lineSchema : (lineSchema.graph none).readPath (.iri "f") =
    .ok [.inverse (.iri "p"), .forward (.iri "q")] := by
  have path : (lineSchema.graph none).objects (.iri "f") (.iri Sh.path) = [.blank "c"] :=
    Graph.objects_eq_singleton_iff.mpr fun b => by
      simp [edge_lineSchema, Rdf.first, Rdf.type, Rdf.rest, Sh.path, Sh.inversePath]
  have inverse : (lineSchema.graph none).about (.blank "i") =
      [⟨.blank "i", .iri Sh.inversePath, .iri "p"⟩] := by
    refine Graph.about_eq_singleton_iff.mpr fun u => ⟨fun ⟨member, about⟩ => ?_, ?_⟩
    · obtain ⟨subject, predicate, object⟩ := u
      obtain rfl : subject = .blank "i" := about
      obtain ⟨rfl, rfl⟩ := said_lineSchema.mp member
      rfl
    · rintro rfl
      exact ⟨said_lineSchema.mpr ⟨rfl, rfl⟩, rfl⟩
  have back : (lineSchema.graph none).objects (.blank "c") (.iri Rdf.first) = [.blank "i"] :=
    Graph.objects_eq_singleton_iff.mpr fun b => by simp [first_lineSchema]
  have first : (lineSchema.graph none).decode? (.blank "c") = some (.ok (.inverse (.iri "p"))) := by
    rw [Graph.decode?, back]
    simp [Graph.stepOf, inverse, Term.isIri]
  have element : (lineSchema.graph none).objects (.blank "d") (.iri Rdf.first) = [.iri "q"] :=
    Graph.objects_eq_singleton_iff.mpr fun b => by simp [first_lineSchema]
  have second : (lineSchema.graph none).decode? (.blank "d") = some (.ok (.forward (.iri "q"))) := by
    rw [Graph.decode?, element]
    rfl
  have toSecond : (lineSchema.graph none).Edge (.iri Rdf.rest) (.blank "c") (.blank "d") :=
    rest_lineSchema.mpr (by simp)
  have toEnd : (lineSchema.graph none).Edge (.iri Rdf.rest) (.blank "d") (.iri Rdf.nil) :=
    rest_lineSchema.mpr (by simp)
  rw [Graph.readPath, path]
  simp [Graph.readList, first, Graph.readFrom_next unbranched_lineSchema toSecond, second,
    Graph.readFrom_next unbranched_lineSchema toEnd]

/-- Every field that has a path is resolved, once: to what reading its path gives, where its list
does not branch. -/
theorem resolve_field_reads_paths {resolution : Resolution}
    (resolves : schema.resolve .field = .ok resolution)
    (bare : ∀ element, ¬ (schema.graph none).Edge (.iri Rdf.first) (.iri Rdf.nil) element) :
    resolution.keys.Nodup ∧
      (∀ key, key ∈ resolution.keys ↔
        ∃ field, key = .field field ∧ (schema.graph none).IsRoot .field field ∧
          ∃ path, (schema.graph none).Edge (.iri Sh.path) field path) ∧
      ∀ field, (schema.graph none).IsRoot .field field →
        (∃ path, (schema.graph none).Edge (.iri Sh.path) field path) →
        (∀ cell, (schema.graph none).objects field (.iri Sh.path) = [cell] → cell.isBlank →
          (schema.graph none).Unbranched cell) →
        resolution.Records (.field field) ((schema.graph none).readPath field) := by
  obtain ⟨outcomes, roots, rfl⟩ := return_eq_ok.mp resolves
  obtain ⟨l, lists, entries⟩ := mem_resolveRoots roots
  obtain ⟨distinct, recorded⟩ := Resolution.records_fields outcomes
  refine ⟨distinct, fun key => ?_, fun field isField hasPath unbranched => ?_⟩
  · simp only [Resolution.mem_keys, recorded, entries, Graph.Starts]
    constructor
    · rintro ⟨outcome, field, rfl, ⟨path, isField, edge⟩, -⟩
      exact ⟨field, rfl, isField, path, edge⟩
    · rintro ⟨field, rfl, isField, path, edge⟩
      exact ⟨_, field, rfl, ⟨path, isField, edge⟩, rfl⟩
  · obtain ⟨path, edge⟩ := hasPath
    refine (recorded _ _).mpr ⟨field, rfl, (entries field _).mpr ⟨⟨path, isField, edge⟩, ?_⟩⟩
    exact (Lists.chain_eq_readPath lists bare isField unbranched).symm

theorem resolve_field_reads_paths_lineSchema : ∃ resolution,
    lineSchema.resolve .field = .ok resolution ∧
      resolution.Records (.field (.iri "f")) (.ok [.inverse (.iri "p"), .forward (.iri "q")]) := by
  have resolved : ∃ resolution, lineSchema.resolve .field = .ok resolution :=
    exists_resolve (fun _ _ _ => supported_lineSchema) fun _ _ _ => supported_lineSchema
  obtain ⟨resolution, resolves⟩ := resolved
  have bare : ∀ element, ¬ (lineSchema.graph none).Edge (.iri Rdf.first) (.iri Rdf.nil) element :=
    fun element first => by simp [first_lineSchema] at first
  have isField : (lineSchema.graph none).IsRoot .field (.iri "f") := edge_lineSchema.mpr (.inl (by simp))
  have hasPath : (lineSchema.graph none).Edge (.iri Sh.path) (.iri "f") (.blank "c") :=
    edge_lineSchema.mpr (.inr (.inl (by simp)))
  have recorded := (resolve_field_reads_paths resolves bare).2.2 (.iri "f") isField ⟨_, hasPath⟩
    fun _ _ _ => unbranched_lineSchema
  rw [readPath_lineSchema] at recorded
  exact ⟨resolution, resolves, recorded⟩

end
end Formulary
