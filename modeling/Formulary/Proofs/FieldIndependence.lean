import Formulary.Proofs.FieldResolution

/-!
# Independence of fields

The outcome of a path depends on the triples that it is made of and on no others: those that give the
root its path, those about the cells of the list, and those about the blank elements of these cells
(`SamePath.outcome_eq`). So a field keeps its outcome in any other schema that says the same about
these, whatever else the two schemas hold (`resolve_field_congr`).
-/

namespace Formulary
open Std Relation

namespace Graph

/-- The cell is a path value of the root or comes after one. -/
def InPath (g : Graph) (root cell : Term) : Prop :=
  ∃ start, g.Edge (.iri Sh.path) root start ∧ ReflTransGen (g.Edge (.iri Rdf.rest)) start cell

/-- The terms of which a path tells: the root, the cells of its list, and their blank elements. -/
inductive Concerns (g : Graph) (root : Term) : Term → Prop
  | root : g.Concerns root root
  | cell {cell} : g.InPath root cell → g.Concerns root cell
  | element {cell element} : g.InPath root cell → g.Edge (.iri Rdf.first) cell element →
      element.isBlank → g.Concerns root element

/-- Two graphs say the same about the path of a root: they give it the same values, link the cells of
its list in the same way and to the same elements, and say the same of every blank element that stands
alone in its cell. -/
structure SamePath (g h : Graph) (root : Term) : Prop where
  paths : ∀ path, g.Edge (.iri Sh.path) root path ↔ h.Edge (.iri Sh.path) root path
  rests : ∀ cell, g.InPath root cell → ∀ later,
    g.Edge (.iri Rdf.rest) cell later ↔ h.Edge (.iri Rdf.rest) cell later
  firsts : ∀ cell, g.InPath root cell → ∀ element,
    g.Edge (.iri Rdf.first) cell element ↔ h.Edge (.iri Rdf.first) cell element
  elements : ∀ cell, g.InPath root cell → ∀ t : Triple, t.subject.isBlank →
    (∀ element, g.Edge (.iri Rdf.first) cell element ↔ element = t.subject) → (t ∈ g ↔ t ∈ h)

variable {g h : Graph} {root cell : Term}

theorem InPath.rest {later : Term} (inside : g.InPath root cell)
    (rest : g.Edge (.iri Rdf.rest) cell later) : g.InPath root later := by
  obtain ⟨start, path, way⟩ := inside
  exact ⟨start, path, way.tail rest⟩

theorem SamePath.of_concerns
    (same : ∀ t : Triple, g.Concerns root t.subject → (t ∈ g ↔ t ∈ h)) : g.SamePath h root where
  paths _ := same _ .root
  rests _ inside _ := same _ (.cell inside)
  firsts _ inside _ := same _ (.cell inside)
  elements _ inside t blank alone := same t (.element inside ((alone _).mpr rfl) blank)

/-! ## What is read at one place -/

theorem objects_congr {subject predicate : Term}
    (same : ∀ object, g.Edge predicate subject object ↔ h.Edge predicate subject object) :
    g.objects subject predicate = h.objects subject predicate := by
  refine ascending_objects.eq_of_mem_iff ascending_objects fun object => ?_
  rw [mem_objects, mem_objects, same]

theorem about_congr {subject : Term}
    (same : ∀ t : Triple, t.subject = subject → (t ∈ g ↔ t ∈ h)) : g.about subject = h.about subject := by
  have ascending : ∀ g : Graph, (g.about subject).Pairwise fun t u => compare t u = .lt := fun g =>
    g.ascending.filter _
  refine (ascending g).eq_of_mem_iff (ascending h) fun t => ?_
  rw [mem_about, mem_about]
  exact and_congr_left fun about => same t about

theorem stepOf_congr {element : Term}
    (same : ∀ t : Triple, t.subject = element → element.isBlank → (t ∈ g ↔ t ∈ h)) :
    g.stepOf element = h.stepOf element := by
  cases element with
  | iri value => rfl
  | literal value => rfl
  | blank label => rw [stepOf, stepOf, about_congr fun t about => same t about rfl]

namespace SamePath

theorem decode?_eq (same : g.SamePath h root) (inside : g.InPath root cell) :
    g.decode? cell = h.decode? cell := by
  have elements : g.objects cell (.iri Rdf.first) = h.objects cell (.iri Rdf.first) :=
    objects_congr (same.firsts cell inside)
  rw [decode?, decode?, ← elements]
  cases found : g.objects cell (.iri Rdf.first) with
  | nil => rfl
  | cons element others =>
    cases others with
    | cons => rfl
    | nil =>
      have alone := objects_eq_singleton_iff.mp found
      have steps : g.stepOf element = h.stepOf element := stepOf_congr fun t about blank =>
        same.elements cell inside t (about ▸ blank) (about ▸ alone)
      exact congrArg some steps

theorem next_eq (same : g.SamePath h root) (inside : g.InPath root cell) :
    g.next cell = h.next cell := by
  refine SortedSet.ext_mem fun hop => ?_
  rw [mem_next, mem_next, ← same.rests cell inside]
  exact and_congr_right fun rest => by rw [same.decode?_eq (inside.rest rest)]

theorem close_eq (same : g.SamePath h root) (inside : g.InPath root cell) :
    g.close cell = h.close cell := by
  have ends : ⟨cell, .iri Rdf.rest, .iri Rdf.nil⟩ ∈ g ↔ ⟨cell, .iri Rdf.rest, .iri Rdf.nil⟩ ∈ h :=
    same.rests cell inside _
  have rests : g.objects cell (.iri Rdf.rest) = h.objects cell (.iri Rdf.rest) :=
    objects_congr (same.rests cell inside)
  simp only [close, ends, ← rests]
  cases first : (g.objects cell (.iri Rdf.rest)).head? with
  | none => rfl
  | some later =>
    rw [Option.bind_some, Option.bind_some, same.decode?_eq (inside.rest (edge_of_head? first))]

/-! ## The whole path -/

/-- A walk stays in the path, so that both graphs say the same wherever it comes. -/
theorem walkFrom_eq (same : g.SamePath h root) {seen : SortedSet Term} (inside : g.InPath root cell) :
    g.walkFrom seen cell = h.walkFrom seen cell := by
  induction seen, cell using walkFrom.induct g with
  | case1 seen cell none =>
    rw [Graph.walkFrom_eq, Graph.walkFrom_eq, ← same.next_eq inside, none]
    exact same.close_eq inside
  | case2 seen cell hop single old =>
    rw [Graph.walkFrom_eq, Graph.walkFrom_eq, ← same.next_eq inside, single]
    simp only [if_pos old]
  | case3 seen cell hop single fresh ih =>
    rw [Graph.walkFrom_eq, Graph.walkFrom_eq, ← same.next_eq inside, single]
    simp only [if_neg fresh, ih (inside.rest (onward_of_next single).1)]
  | case4 seen cell first second others several =>
    rw [Graph.walkFrom_eq, Graph.walkFrom_eq, ← same.next_eq inside, several]

theorem walkList_eq (same : g.SamePath h root) (inside : g.InPath root cell) :
    g.walkList cell = h.walkList cell := by
  rw [walkList, walkList, ← same.decode?_eq inside, same.walkFrom_eq inside]

/-- The outcome of a path depends on what it is made of. -/
theorem outcome_eq (same : g.SamePath h root) : g.outcome root = h.outcome root := by
  rw [outcome, outcome, ← objects_congr same.paths]
  cases paths : g.objects root (.iri Sh.path) with
  | nil => rfl
  | cons path others =>
    cases others with
    | cons => cases path <;> rfl
    | nil =>
      cases path with
      | iri predicate => rfl
      | literal value => rfl
      | blank label =>
        have path : g.Edge (.iri Sh.path) root (.blank label) :=
          mem_objects.mp (paths ▸ List.mem_singleton_self _)
        exact same.walkList_eq ⟨_, path, .refl⟩

end SamePath
end Graph

/-! ## Two schemas -/

section
variable {schema other : Dataset} {r s : Resolution} {field : Term}

/-- A field has the same outcome in two schemas that resolve and say the same about the field, the
cells of its list and their blank elements: the same chain, the same defect, or none. -/
theorem resolve_field_congr (resolves : schema.resolve .field = .ok r)
    (resolvesToo : other.resolve .field = .ok s) (isField : (schema.graph none).IsRoot .field field)
    (same : ∀ t : Triple, (schema.graph none).Concerns field t.subject →
      (t ∈ schema.graph none ↔ t ∈ other.graph none)) :
    r.chains.get? (.field field) = s.chains.get? (.field field) ∧
      (∀ defect, (.field field, defect) ∈ r.malformed ↔ (.field field, defect) ∈ s.malformed) ∧
      (.field field ∈ r.keys ↔ .field field ∈ s.keys) := by
  have path := Graph.SamePath.of_concerns same
  have isFieldToo : (other.graph none).IsRoot .field field := (same _ .root).mp isField
  have records : ∀ outcome, r.Records (.field field) outcome ↔ s.Records (.field field) outcome := by
    intro outcome
    simp only [records_field_iff resolves, records_field_iff resolvesToo, FieldKey.field.injEq,
      exists_eq_left', Graph.Starts, isField, isFieldToo, true_and, path.paths, path.outcome_eq]
  exact ⟨Option.ext fun chain => records (.ok chain), fun defect => records (.error defect), by
    simp only [Resolution.mem_keys, records]⟩

/-- The field of one list, along with other triples. -/
def lineSchemaWith (others : List Triple) : Dataset :=
  .ofGraph ((lineSchema.graph none).insertMany others)

/-- Triples that say nothing about the path of the field, nor give a cell a blank element. -/
structure Foreign (others : List Triple) : Prop where
  apart : ∀ t ∈ others,
    t.subject ∉ [.iri "f", .blank "c", .blank "d", .iri Rdf.nil, .blank "i"]
  plain : ∀ t ∈ others, t.predicate = .iri Rdf.first → t.object.isBlank = false

theorem mem_lineSchemaWith {others : List Triple} {t : Triple} :
    t ∈ (lineSchemaWith others).graph none ↔ t ∈ lineSchema.graph none ∨ t ∈ others := by
  rw [lineSchemaWith, Dataset.graph_ofGraph, if_pos rfl, SortedSet.mem_insertMany]

/-- Of a node that is not one of the field and its list, just the others are said. -/
theorem edge_lineSchemaWith {others : List Triple} {a b predicate : Term} (apart : a ≠ .iri "f" ∧
      a ≠ .blank "c" ∧ a ≠ .blank "d" ∧ a ≠ .blank "i") :
    ((lineSchemaWith others).graph none).Edge predicate a b ↔ ⟨a, predicate, b⟩ ∈ others := by
  rw [Graph.Edge, mem_lineSchemaWith]
  refine or_iff_right fun edge => ?_
  have listed := edge_lineSchema.mp edge
  tauto

theorem inPath_lineSchema {cell : Term} (inside : (lineSchema.graph none).InPath (.iri "f") cell) :
    cell ∈ [.blank "c", .blank "d", .iri Rdf.nil] := by
  obtain ⟨start, path, way⟩ := inside
  obtain rfl : start = .blank "c" := by
    simpa [edge_lineSchema, Sh.path, Rdf.type, Rdf.first, Rdf.rest] using path
  induction way with
  | refl => simp
  | tail _ rest ih =>
    rcases rest_lineSchema.mp rest with ⟨-, rfl⟩ | ⟨-, rfl⟩ <;> simp

theorem concerns_lineSchema {subject : Term}
    (concerns : (lineSchema.graph none).Concerns (.iri "f") subject) :
    subject ∈ [.iri "f", .blank "c", .blank "d", .iri Rdf.nil, .blank "i"] := by
  cases concerns with
  | root => simp
  | cell inside =>
    have listed := inPath_lineSchema inside
    simp only [List.mem_cons, List.not_mem_nil, or_false] at listed ⊢
    tauto
  | element _ first blank =>
    rcases first_lineSchema.mp first with ⟨-, rfl⟩ | ⟨-, rfl⟩
    · simp
    · exact absurd blank nofun

namespace Foreign

variable {others : List Triple}

theorem same (foreign : Foreign others) {t : Triple}
    (concerns : (lineSchema.graph none).Concerns (.iri "f") t.subject) :
    t ∈ lineSchema.graph none ↔ t ∈ (lineSchemaWith others).graph none := by
  rw [mem_lineSchemaWith]
  exact (or_iff_left fun other => foreign.apart t other (concerns_lineSchema concerns)).symm

theorem supported (foreign : Foreign others) {cell : Term} :
    ((lineSchemaWith others).graph none).Supported cell := by
  intro element first blank t about
  obtain ⟨member, rfl⟩ := Graph.mem_about.mp about
  rcases mem_lineSchemaWith.mp first with first | first
  · rcases mem_lineSchemaWith.mp member with said | said
    · exact supported_lineSchema _ first blank t (Graph.mem_about.mpr ⟨said, rfl⟩)
    · rcases first_lineSchema.mp first with ⟨-, same⟩ | ⟨-, same⟩
      · exact absurd (by simp [same]) (foreign.apart t said)
      · exact absurd blank (by rw [same]; exact nofun)
  · exact absurd (foreign.plain _ first rfl) (by simpa using blank)

/-- The schema resolves along with the others, for roots of either kind. -/
theorem exists_resolve (foreign : Foreign others) (kind : RootKind) :
    ∃ resolution, (lineSchemaWith others).resolve kind = .ok resolution :=
  Formulary.exists_resolve (fun _ _ _ => foreign.supported) fun _ _ _ => foreign.supported

end Foreign

/-- A second field whose list goes over into that of the first, a third whose path is a literal, and a
foreign node that links to the first cell. -/
def neighbours : List Triple :=
  [⟨.iri "g", .iri Rdf.type, .iri FormNs.field⟩, ⟨.iri "g", .iri Sh.path, .blank "e"⟩,
   ⟨.blank "e", .iri Rdf.first, .iri "r"⟩, ⟨.blank "e", .iri Rdf.rest, .blank "d"⟩,
   ⟨.iri "h", .iri Rdf.type, .iri FormNs.field⟩, ⟨.iri "h", .iri Sh.path, .plain "r"⟩,
   ⟨.blank "x", .iri Rdf.rest, .blank "c"⟩]

/-- The field has the same outcome among its neighbours as alone. -/
theorem resolve_field_congr_neighbours : ∃ r s, lineSchema.resolve .field = .ok r ∧
    (lineSchemaWith neighbours).resolve .field = .ok s ∧
      r.chains.get? (.field (.iri "f")) = s.chains.get? (.field (.iri "f")) := by
  obtain ⟨r, alone⟩ : ∃ r, lineSchema.resolve .field = .ok r :=
    exists_resolve (fun _ _ _ => supported_lineSchema) fun _ _ _ => supported_lineSchema
  have foreign : Foreign neighbours := ⟨by decide, by decide⟩
  obtain ⟨s, among⟩ := foreign.exists_resolve .field
  have isField : (lineSchema.graph none).IsRoot .field (.iri "f") := edge_lineSchema.mpr (.inl (by simp))
  exact ⟨r, s, alone, among, (resolve_field_congr alone among isField fun _ => foreign.same).1⟩

end
end Formulary
