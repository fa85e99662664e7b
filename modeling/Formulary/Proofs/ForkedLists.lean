import Formulary.Proofs.FieldResolution

/-!
# Lists that fork

What becomes of a list in which some cell has more than one cell after it. A walk sees of the cells
after this one only those that carry a step, and asks for `rdf:nil` only where there is none. So it
is stopped where two cells that carry steps come after one cell, but not where `rdf:nil` or a cell
without a step comes after it along with one that carries a step: there it passes, and the field gets
a chain (`resolve_list_iff_passes`).
-/

namespace Formulary
open Std Relation

namespace Graph

/-- From a cell on, the list is passed by the given steps: each cell carries its own, after each there
is one cell that carries a step, and where there is none there is `rdf:nil`. -/
inductive Passes (g : Graph) : Term → Chain → Prop
  | last {cell step} : g.decode? cell = some (.ok step) → g.Edge (.iri Rdf.rest) cell (.iri Rdf.nil) →
      (∀ next later, g.Edge (.iri Rdf.rest) cell next → g.decode? next ≠ some (.ok later)) →
      g.Passes cell [step]
  | more {cell next step chain} : g.decode? cell = some (.ok step) → g.Edge (.iri Rdf.rest) cell next →
      (∀ other later, g.Edge (.iri Rdf.rest) cell other → g.decode? other = some (.ok later) →
        other = next) →
      g.Passes next chain → g.Passes cell (step :: chain)

/-- The next cell comes after this one and carries a step. -/
def Onward (g : Graph) (cell next : Term) : Prop :=
  g.Edge (.iri Rdf.rest) cell next ∧ ∃ step, g.decode? next = some (.ok step)

namespace Passes

variable {g : Graph} {cell next : Term} {chain other : Chain}

theorem exists_step (passes : g.Passes cell chain) :
    ∃ step later, chain = step :: later ∧ g.decode? cell = some (.ok step) := by
  cases passes with
  | last decoded => exact ⟨_, _, rfl, decoded⟩
  | more decoded => exact ⟨_, _, rfl, decoded⟩

/-- A list is passed in one way. -/
theorem unique (passes : g.Passes cell chain) (again : g.Passes cell other) : chain = other := by
  induction passes generalizing other with
  | last decoded _ alone =>
    cases again with
    | last decoded' => rw [Except.ok.inj (Option.some.inj (decoded.symm.trans decoded'))]
    | more _ rest _ beyond =>
      obtain ⟨step, -, -, carries⟩ := beyond.exists_step
      exact absurd carries (alone _ step rest)
  | more decoded rest only beyond ih =>
    cases again with
    | last _ _ alone =>
      obtain ⟨step, -, -, carries⟩ := beyond.exists_step
      exact absurd carries (alone _ step rest)
    | more decoded' rest' _ beyond' =>
      obtain ⟨step, -, -, carries⟩ := beyond'.exists_step
      obtain rfl := only _ step rest' carries
      rw [Except.ok.inj (Option.some.inj (decoded.symm.trans decoded')), ih beyond']

theorem onward (passes : g.Passes cell chain) (way : g.Onward cell next) :
    ∃ later, g.Passes next later := by
  obtain ⟨rest, step, carries⟩ := way
  cases passes with
  | last _ _ alone => exact absurd carries (alone _ _ rest)
  | more _ _ only beyond =>
    obtain rfl := only _ _ rest carries
    exact ⟨_, beyond⟩

/-- A list that is passed is passed from every cell on the way. -/
theorem reaches (passes : g.Passes cell chain) (way : ReflTransGen g.Onward cell next) :
    ∃ later, g.Passes next later := by
  induction way with
  | refl => exact ⟨_, passes⟩
  | tail _ step ih =>
    obtain ⟨later, passes⟩ := ih
    exact passes.onward step

end Passes

/-- A list that goes on to two cells with steps is not passed. -/
theorem not_passes_of_fork {g : Graph} {cell fork one two : Term} {chain : Chain}
    (way : ReflTransGen g.Onward cell fork) (first : g.Onward fork one) (second : g.Onward fork two)
    (apart : one ≠ two) : ¬ g.Passes cell chain := by
  intro passes
  obtain ⟨later, beyond⟩ := passes.reaches way
  obtain ⟨toFirst, step, carries⟩ := first
  obtain ⟨toSecond, other, carries'⟩ := second
  cases beyond with
  | last _ _ alone => exact alone _ _ toFirst carries
  | more _ _ only _ => exact apart ((only _ _ toFirst carries).trans (only _ _ toSecond carries').symm)

end Graph

/-! ## Walks that come to an end -/

namespace Graph

variable {g : Graph} {cell : Term} {seen : SortedSet Term} {step : Step} {chain : Chain}

theorem close_eq_ok : g.close cell = .ok chain ↔
    chain = [] ∧ g.Edge (.iri Rdf.rest) cell (.iri Rdf.nil) := by
  rw [close]
  by_cases ends : ⟨cell, .iri Rdf.rest, .iri Rdf.nil⟩ ∈ g
  · simp [ends, Edge, eq_comm]
  · rw [if_neg ends]
    split <;> simp [ends, Edge]

/-- A walk that comes to an end has passed the list. -/
theorem passes_of_walkFrom (decoded : g.decode? cell = some (.ok step))
    (walked : g.walkFrom seen cell = .ok chain) : g.Passes cell (step :: chain) := by
  induction seen, cell using walkFrom.induct g generalizing step chain with
  | case1 seen cell none =>
    rw [walkFrom_eq, none] at walked
    obtain ⟨rfl, ends⟩ := close_eq_ok.mp walked
    exact .last decoded ends fun other later edge carries =>
      SortedSet.toList_eq_nil_iff.mp none ⟨later, other⟩ (mem_next.mpr ⟨edge, carries⟩)
  | case2 seen cell hop single old =>
    rw [walkFrom_eq, single] at walked
    simp only [if_pos old] at walked
    cases walked
  | case3 seen cell hop single fresh ih =>
    rw [walkFrom_eq, single] at walked
    simp only [if_neg fresh] at walked
    obtain ⟨later, beyond, rfl⟩ := map_eq_ok.mp walked
    obtain ⟨rest, carries⟩ := onward_of_next single
    refine .more decoded rest (fun other later edge carries => ?_) (ih carries beyond)
    have same : ⟨later, other⟩ = hop :=
      (SortedSet.toList_eq_singleton_iff.mp single _).mp (mem_next.mpr ⟨edge, carries⟩)
    rw [← same]
  | case4 seen cell one two others several =>
    rw [walkFrom_eq, several] at walked
    cases walked

/-- Where the list is passed, the walk comes to its end: from a seen cell there are more steps to the
end than from any later one, so it is not met again. -/
theorem walkFrom_of_passes (passes : g.Passes cell chain)
    (earlier : ∀ v ∈ seen, ∃ longer, g.Passes v longer ∧ chain.length ≤ longer.length) :
    g.walkFrom seen cell = .ok chain.tail := by
  induction passes generalizing seen with
  | last decoded ends alone =>
    have nothing : (g.next _).toList = [] := SortedSet.toList_eq_nil_iff.mpr fun hop member =>
      alone _ _ (mem_next.mp member).1 (mem_next.mp member).2
    rw [walkFrom_eq, nothing]
    exact close_eq_ok.mpr ⟨rfl, ends⟩
  | @more cell next step chain decoded rest only beyond ih =>
    obtain ⟨later, others, rfl, carries⟩ := beyond.exists_step
    have single : (g.next cell).toList = [⟨later, next⟩] :=
      SortedSet.toList_eq_singleton_iff.mpr fun hop => by
        rw [mem_next]
        constructor
        · rintro ⟨edge, found⟩
          obtain ⟨other, there⟩ := hop
          obtain rfl : there = next := only _ _ edge found
          obtain rfl : other = later := by simpa [carries, eq_comm] using found
          rfl
        · rintro rfl
          exact ⟨rest, carries⟩
    have fresh : next ∉ seen := fun old => by
      obtain ⟨longer, passes, atLeast⟩ := earlier next old
      rw [← beyond.unique passes] at atLeast
      exact absurd atLeast (by simp)
    have onward : g.walkFrom (seen.insert next) next = .ok others := by
      refine ih fun v member => ?_
      rcases SortedSet.mem_insert.mp member with rfl | old
      · exact ⟨_, beyond, le_rfl⟩
      · obtain ⟨longer, passes, atLeast⟩ := earlier v old
        exact ⟨longer, passes, (Nat.le_succ _).trans atLeast⟩
    rw [walkFrom_eq, single]
    simp only [if_neg fresh, onward]
    rfl

/-- The walk along a list gives the steps by which the list is passed. -/
theorem walkList_eq_ok : g.walkList cell = .ok chain ↔ g.Passes cell chain := by
  rw [walkList]
  constructor
  · intro walked
    split at walked
    · nomatch walked
    · nomatch walked
    · rename_i step decoded
      obtain ⟨later, beyond, rfl⟩ := map_eq_ok.mp walked
      exact passes_of_walkFrom decoded beyond
  · intro passes
    obtain ⟨step, later, rfl, decoded⟩ := passes.exists_step
    have here : ∀ v ∈ SortedSet.ofList [cell], ∃ longer, g.Passes v longer ∧
        (step :: later).length ≤ longer.length := fun v member =>
      ⟨_, List.mem_singleton.mp (SortedSet.mem_ofList.mp member) ▸ passes, le_rfl⟩
    rw [decoded]
    exact map_eq_ok.mpr ⟨later, walkFrom_of_passes passes here, rfl⟩

/-- A path has a chain where it is a predicate alone or a list that is passed. -/
theorem outcome_eq_ok {root : Term} : g.outcome root = .ok chain ↔
    (∃ predicate, (∀ path, g.Edge (.iri Sh.path) root path ↔ path = .iri predicate) ∧
        chain = [.forward (.iri predicate)]) ∨
      ∃ label, (∀ path, g.Edge (.iri Sh.path) root path ↔ path = .blank label) ∧
        g.Passes (.blank label) chain := by
  simp only [← objects_eq_singleton_iff, ← walkList_eq_ok, outcome]
  cases g.objects root (.iri Sh.path) with
  | nil => simp
  | cons path others =>
    cases others with
    | cons => cases path <;> simp
    | nil => cases path <;> simp [eq_comm]

end Graph

/-! ## The chain of a field -/

section
variable {schema : Dataset} {resolution : Resolution} {field : Term} {label : String}

/-- A field whose path is a list has the outcome of walking that list. -/
theorem records_walkList (resolves : schema.resolve .field = .ok resolution)
    (isField : (schema.graph none).IsRoot .field field)
    (single : (schema.graph none).objects field (.iri Sh.path) = [.blank label])
    (outcome : Except Defect Chain) : resolution.Records (.field field) outcome ↔
      (schema.graph none).walkList (.blank label) = outcome := by
  have starts : (schema.graph none).Starts .field field (.blank label) :=
    ⟨isField, Graph.mem_objects.mp (single ▸ List.mem_singleton_self _)⟩
  have walked : (schema.graph none).outcome field = (schema.graph none).walkList (.blank label) := by
    rw [Graph.outcome, single]
  rw [records_field_iff resolves]
  constructor
  · rintro ⟨other, same, -, rfl⟩
    obtain rfl := FieldKey.field.inj same
    exact walked.symm
  · rintro rfl
    exact ⟨field, rfl, ⟨_, starts⟩, walked.symm⟩

/-- A field whose path is a list gets the chain by which the list is passed, forked or not, and is
reported where it is not passed; so it is where the list goes on to two cells with steps. -/
theorem resolve_list_iff_passes (resolves : schema.resolve .field = .ok resolution)
    (isField : (schema.graph none).IsRoot .field field)
    (single : (schema.graph none).objects field (.iri Sh.path) = [.blank label]) :
    (∀ chain, resolution.chains.get? (.field field) = some chain ↔
        (schema.graph none).Passes (.blank label) chain) ∧
      ((∃ defect, (.field field, defect) ∈ resolution.malformed) ↔
        ¬ ∃ chain, (schema.graph none).Passes (.blank label) chain) ∧
      ∀ fork one two, ReflTransGen (schema.graph none).Onward (.blank label) fork →
        (schema.graph none).Onward fork one → (schema.graph none).Onward fork two → one ≠ two →
        (∃ defect, (.field field, defect) ∈ resolution.malformed) ∧
          resolution.chains.get? (.field field) = none := by
  have recorded := records_walkList resolves isField single
  have walked : ∀ chain, (schema.graph none).walkList (.blank label) = .ok chain ↔
      (schema.graph none).Passes (.blank label) chain := fun chain => Graph.walkList_eq_ok
  have resolved : ∀ chain, resolution.chains.get? (.field field) = some chain ↔
      (schema.graph none).Passes (.blank label) chain := fun chain =>
    (recorded (.ok chain)).trans (walked chain)
  have reported : (∃ defect, (.field field, defect) ∈ resolution.malformed) ↔
      ¬ ∃ chain, (schema.graph none).Passes (.blank label) chain := by
    simp only [← walked]
    constructor
    · rintro ⟨defect, member⟩ ⟨chain, passed⟩
      have failed := (recorded (.error defect)).mp member
      rw [passed] at failed
      nomatch failed
    · intro stopped
      cases outcome : (schema.graph none).walkList (.blank label) with
      | ok chain => exact absurd ⟨chain, outcome⟩ stopped
      | error defect => exact ⟨defect, (recorded (.error defect)).mpr outcome⟩
  refine ⟨resolved, reported, fun fork one two way first second apart => ?_⟩
  have stopped : ∀ chain, ¬ (schema.graph none).Passes (.blank label) chain := fun _ =>
    Graph.not_passes_of_fork way first second apart
  exact ⟨reported.mpr fun ⟨chain, passes⟩ => stopped chain passes,
    Option.eq_none_iff_forall_ne_some.mpr fun chain found => stopped chain ((resolved chain).mp found)⟩

/-- A field whose path is a list that ends at its first cell and also goes on from there. -/
def forkedSchema : Dataset := .ofGraph <| .ofList
  [⟨.iri "f", .iri Rdf.type, .iri FormNs.field⟩, ⟨.iri "f", .iri Sh.path, .blank "c"⟩,
   ⟨.blank "c", .iri Rdf.first, .iri "p"⟩, ⟨.blank "c", .iri Rdf.rest, .iri Rdf.nil⟩,
   ⟨.blank "c", .iri Rdf.rest, .blank "d"⟩, ⟨.blank "d", .iri Rdf.first, .iri "q"⟩,
   ⟨.blank "d", .iri Rdf.rest, .iri Rdf.nil⟩]

theorem edge_forkedSchema {a b predicate : Term} : (forkedSchema.graph none).Edge predicate a b ↔
    a = .iri "f" ∧ predicate = .iri Rdf.type ∧ b = .iri FormNs.field ∨
      a = .iri "f" ∧ predicate = .iri Sh.path ∧ b = .blank "c" ∨
      a = .blank "c" ∧ predicate = .iri Rdf.first ∧ b = .iri "p" ∨
      a = .blank "c" ∧ predicate = .iri Rdf.rest ∧ b = .iri Rdf.nil ∨
      a = .blank "c" ∧ predicate = .iri Rdf.rest ∧ b = .blank "d" ∨
      a = .blank "d" ∧ predicate = .iri Rdf.first ∧ b = .iri "q" ∨
      a = .blank "d" ∧ predicate = .iri Rdf.rest ∧ b = .iri Rdf.nil := by
  simp [Graph.Edge, forkedSchema, Dataset.graph_ofGraph]

theorem first_forkedSchema {a b : Term} : (forkedSchema.graph none).Edge (.iri Rdf.first) a b ↔
    a = .blank "c" ∧ b = .iri "p" ∨ a = .blank "d" ∧ b = .iri "q" := by
  simp [edge_forkedSchema, Rdf.first, Rdf.type, Rdf.rest, Sh.path]

theorem rest_forkedSchema {a b : Term} : (forkedSchema.graph none).Edge (.iri Rdf.rest) a b ↔
    a = .blank "c" ∧ (b = .iri Rdf.nil ∨ b = .blank "d") ∨ a = .blank "d" ∧ b = .iri Rdf.nil := by
  simp [edge_forkedSchema, Rdf.first, Rdf.type, Rdf.rest, Sh.path]
  tauto

theorem path_forkedSchema {a b : Term} : (forkedSchema.graph none).Edge (.iri Sh.path) a b ↔
    a = .iri "f" ∧ b = .blank "c" := by
  simp [edge_forkedSchema, Rdf.first, Rdf.type, Rdf.rest, Sh.path]

theorem isField_forkedSchema : (forkedSchema.graph none).IsRoot .field (.iri "f") :=
  edge_forkedSchema.mpr (.inl ⟨rfl, rfl, rfl⟩)

theorem single_forkedSchema :
    (forkedSchema.graph none).objects (.iri "f") (.iri Sh.path) = [.blank "c"] :=
  Graph.objects_eq_singleton_iff.mpr fun b => path_forkedSchema.trans (by simp)

theorem forked_forkedSchema : ¬ (forkedSchema.graph none).Unbranched (.blank "c") := fun unbranched =>
  absurd (unbranched _ .refl (.blank "d") (.iri Rdf.nil) (rest_forkedSchema.mpr (by simp))
    (rest_forkedSchema.mpr (by simp))) nofun

/-- The list is passed: `rdf:nil` carries no step, so from its first cell there is one way on. -/
theorem passes_forkedSchema : (forkedSchema.graph none).Passes (.blank "c")
    [.forward (.iri "p"), .forward (.iri "q")] := by
  have first : (forkedSchema.graph none).decode? (.blank "c") = some (.ok (.forward (.iri "p"))) :=
    Graph.decode?_eq_ok.mpr ⟨.iri "p", fun other => first_forkedSchema.trans (by simp), rfl⟩
  have second : (forkedSchema.graph none).decode? (.blank "d") = some (.ok (.forward (.iri "q"))) :=
    Graph.decode?_eq_ok.mpr ⟨.iri "q", fun other => first_forkedSchema.trans (by simp), rfl⟩
  have bare : ∀ step, (forkedSchema.graph none).decode? (.iri Rdf.nil) ≠ some (.ok step) :=
    fun step carries => by
      obtain ⟨element, first⟩ := Graph.edge_first_of_decode? carries
      simpa using first_forkedSchema.mp first
  refine .more first (rest_forkedSchema.mpr (by simp)) (fun other later edge carries => ?_)
    (.last second (rest_forkedSchema.mpr (by simp)) fun other later edge carries => ?_)
  · rcases rest_forkedSchema.mp edge with ⟨-, rfl | rfl⟩ | ⟨same, -⟩
    · exact absurd carries (bare later)
    · rfl
    · exact absurd same (by decide)
  · obtain rfl : other = .iri Rdf.nil := by simpa using rest_forkedSchema.mp edge
    exact absurd carries (bare later)

theorem resolve_forkedSchema : ∃ resolution, forkedSchema.resolve .field = .ok resolution ∧
    resolution.malformed = [] := by
  have supported : ∀ cell, (forkedSchema.graph none).Supported cell := by
    intro cell element first blank
    rcases first_forkedSchema.mp first with ⟨-, rfl⟩ | ⟨-, rfl⟩ <;> exact absurd blank (by decide)
  obtain ⟨resolution, resolves⟩ : ∃ resolution, forkedSchema.resolve .field = .ok resolution :=
    exists_resolve (fun _ cell _ => supported cell) fun _ cell _ => supported cell
  have found : (forkedSchema.graph none).outcome (.iri "f") =
      .ok [.forward (.iri "p"), .forward (.iri "q")] :=
    Graph.outcome_eq_ok.mpr
      (.inr ⟨"c", fun path => path_forkedSchema.trans (by simp), passes_forkedSchema⟩)
  refine ⟨resolution, resolves, List.eq_nil_iff_forall_not_mem.mpr ?_⟩
  rintro ⟨key, defect⟩ member
  have recorded : resolution.Records key (.error defect) := member
  obtain ⟨field, -, ⟨path, -, edge⟩, failed⟩ := (records_field_iff resolves).mp recorded
  obtain ⟨rfl, -⟩ := path_forkedSchema.mp edge
  cases failed.trans found

theorem resolve_list_iff_passes_forkedSchema : ∃ resolution,
    forkedSchema.resolve .field = .ok resolution ∧
      (forkedSchema.graph none).IsRoot .field (.iri "f") ∧
      (forkedSchema.graph none).objects (.iri "f") (.iri Sh.path) = [.blank "c"] ∧
      resolution.chains.get? (.field (.iri "f")) = some [.forward (.iri "p"), .forward (.iri "q")] := by
  obtain ⟨resolution, resolves, -⟩ := resolve_forkedSchema
  obtain ⟨chains, -⟩ := resolve_list_iff_passes resolves isField_forkedSchema single_forkedSchema
  exact ⟨resolution, resolves, isField_forkedSchema, single_forkedSchema,
    (chains _).mpr passes_forkedSchema⟩

/-- A forked list can give a chain. -/
theorem forked_list_not_reported : ¬ ∀ (schema : Dataset) (resolution : Resolution) (field : Term)
    (label : String), schema.resolve .field = .ok resolution →
      (schema.graph none).IsRoot .field field →
      (schema.graph none).objects field (.iri Sh.path) = [.blank label] →
      ¬ (schema.graph none).Unbranched (.blank label) →
      (∃ defect, (.field field, defect) ∈ resolution.malformed) ∧
        resolution.chains.get? (.field field) = none := by
  intro claim
  obtain ⟨resolution, resolves, none⟩ := resolve_forkedSchema
  obtain ⟨⟨defect, member⟩, -⟩ := claim forkedSchema resolution (.iri "f") "c" resolves
    isField_forkedSchema single_forkedSchema forked_forkedSchema
  rw [none] at member
  exact List.not_mem_nil member

end
end Formulary
