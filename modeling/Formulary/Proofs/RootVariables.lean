import Formulary.Proofs.InstanceSolutions
import Formulary.Proofs.InstanceValues
import Formulary.Proofs.Substitution

/-!
# Variables for the root

A variable for the root stands for every instance of the type: what is selected for it is what is
selected for the instances one by one (`matched_variable_root`). Its name is of no account as long as
the query does not make up the same one. Otherwise the two variables are one, and triples that the data
do not have are selected where a pattern of the root becomes a loop (`matched_named_root`).
-/

namespace Formulary
open Std

namespace InstanceQuery

variable {chains : PathMap} {chain rest : Chain} {step : Step} {index hop : Nat} {root : Slot}
  {type x : Term} {deletes : Bool} {data : Dataset} {v w : Variable} {t : Triple}

/-! ## The names that a query makes up -/

/-- The query makes up the variable: for the time of the last change, or for a node of a field. Every
node but the last of its field has two more, for the identifier and the type. -/
def MakesUp (chains : PathMap) (v : Variable) : Prop :=
  v = modified ∨ ∃ index chain, (chains.values.filter (!·.isEmpty))[index]? = some chain ∧
    ∃ part hop, hop < chain.length ∧ (part = .self ∨ hop + 1 < chain.length) ∧
      v = partOf part index (hop + 1)

theorem MakesUp.isGenerated (made : MakesUp chains v) : IsGenerated v := by
  rcases made with same | ⟨index, chain, -, part, hop, -, -, same⟩
  · exact .inl same
  · exact .inr ⟨part, index, hop + 1, same⟩

/-- The body has no variables but that of the root and those that the query makes up. -/
theorem mem_allVars_bodyOf :
    v ∈ (bodyOf chains root type).allVars ↔ v ∈ root.vars ∨ MakesUp chains v := by
  have asked : v ∈ (bodyOf chains root type).allVars ↔
      v ∈ root.vars ∨ ∃ group ∈ optionalGroups root chains, v ∈ group.vars := by
    simp only [Group.allVars, List.mem_flatMap, mem_allPatterns_bodyOf, or_and_right, exists_or,
      exists_eq_left, Group.vars]
    refine or_congr (by simp [TriplePattern.vars, Verb.vars]) ?_
    constructor
    · rintro ⟨p, ⟨group, member, pattern⟩, there⟩
      exact ⟨group, member, p, pattern, there⟩
    · rintro ⟨group, member, p, pattern, there⟩
      exact ⟨p, ⟨group, member, pattern⟩, there⟩
  have ofField : ∀ index chain, (chains.values.filter (!·.isEmpty))[index]? = some chain →
      (v ∈ (fieldGroup root index chain).vars ↔ v ∈ root.vars ∨ ∃ part hop, hop < chain.length ∧
        (part = .self ∨ hop + 1 < chain.length) ∧ v = partOf part index (hop + 1)) := by
    intro index chain field
    refine (mem_vars_patternsFrom (listed_of_field field).2).trans ?_
    simp only [Nat.zero_add]
  rw [asked, optionalGroups, List.exists_mem_cons_iff, mem_vars_modifiedGroup]
  constructor
  · rintro (there | (there | same) | ⟨_, member, there⟩)
    · exact .inl there
    · exact .inl there
    · exact .inr (.inl same)
    · obtain ⟨index, chain, field, rfl⟩ := mem_fieldGroups.mp member
      refine ((ofField index chain field).mp there).imp_right fun part => ?_
      exact .inr ⟨index, chain, field, part⟩
  · rintro (there | same | ⟨index, chain, field, part⟩)
    · exact .inl there
    · exact .inr (.inl (.inr same))
    · exact .inr (.inr ⟨_, mem_fieldGroups.mpr ⟨index, chain, field, rfl⟩,
        (ofField index chain field).mpr (.inr part)⟩)

/-! ## A term for the root -/

section Substitution

variable {one two : Slot}

theorem substitute_pattern (s : Step) (source target : Slot) :
    (s.pattern source target).substitute v x =
      s.pattern (source.substitute v x) (target.substitute v x) := by
  cases direction : s.direction <;>
    simp [Step.pattern, TriplePattern.substitute, Verb.substitute, direction]

private theorem map_substitute_patternsFrom (same : one.substitute v x = two.substitute v x) :
    (patternsFrom index one hop chain).map (·.substitute v x) =
      (patternsFrom index two hop chain).map (·.substitute v x) := by
  cases chain with
  | nil => rfl
  | cons step rest => cases rest <;> simp [patternsFrom, substitute_pattern, same]

/-- Roots that are the same term in the end make the same body. -/
theorem substitute_bodyOf (same : one.substitute v x = two.substitute v x) :
    (bodyOf chains one type).substitute v x = (bodyOf chains two type).substitute v x := by
  have field : ∀ index chain, (fieldGroup one index chain).substitute v x =
      (fieldGroup two index chain).substitute v x := fun index chain => by
    rw [fieldGroup, fieldGroup, Group.substitute, Group.substitute, map_substitute_patternsFrom same]
  have fields : (fieldGroups one chains.values).map (·.substitute v x) =
      (fieldGroups two chains.values).map (·.substitute v x) := by
    refine List.ext_getElem? fun index => ?_
    simp only [fieldGroups, List.getElem?_map, List.getElem?_mapIdx, Option.map_map]
    exact congrArg (Option.map · _) (funext (field index))
  simp [bodyOf, modifiedGroup, Group.substitute, Group.substituteAll, Group.substituteAll_eq_map,
    TriplePattern.substitute, same, fields]

end Substitution

/-- The body for a term, with the term also in place of the variable of the given name. -/
def namedBody (chains : PathMap) (v : Variable) (x type : Term) : Group :=
  (bodyOf chains (.term x) type).substitute v x

/-- A variable for the root stands for any term, there and wherever the query makes up its name. -/
theorem mem_matched_iff_namedBody : t ∈ (build chains (.var v) type deletes).matched data ↔
    ∃ x, t ∈ data.construct (namedBody chains v x type).allPatterns (namedBody chains v x type) := by
  have required : v ∈ (bodyOf chains (.var v) type).vars := by
    simp [bodyOf, Group.vars, TriplePattern.vars, Verb.vars]
  have body : ∀ x, (bodyOf chains (.var v) type).substitute v x = namedBody chains v x type :=
    fun x => substitute_bodyOf (by simp [Slot.substitute])
  rw [matched, build, Dataset.mem_construct_iff_substitute required]
  simp only [← Group.allPatterns_substitute, body]

theorem mem_matched_iff_exists_term (fresh : ¬ MakesUp chains v) :
    t ∈ (build chains (.var v) type deletes).matched data ↔
      ∃ x, t ∈ (build chains (.term x) type deletes).matched data := by
  have body : ∀ x, namedBody chains v x type = bodyOf chains (.term x) type := fun x =>
    Group.substitute_of_not_mem _ fun there => by
      rcases mem_allVars_bodyOf.mp there with inside | made
      · exact absurd inside List.not_mem_nil
      · exact fresh made
  simp only [mem_matched_iff_namedBody, body]
  rfl

/-- Nothing is selected for a term that has not the type. -/
theorem typed_of_mem_matched (member : t ∈ (build chains (.term x) type deletes).matched data) :
    ⟨x, .iri Rdf.type, type⟩ ∈ data.graph none := by
  rw [matched, Dataset.construct, mem_instantiateAll] at member
  obtain ⟨row, found, -⟩ := member
  obtain ⟨σ, typed, -⟩ := mem_select_bodyOf.mp found
  exact typed

/-- For a variable root exactly those triples are selected that are selected for some instance of the
type. -/
theorem matched_variable_root (chains : PathMap) (v : Variable) (type : Term) (deletes : Bool)
    (data : Dataset) (free : ¬ IsGenerated v) :
    ∀ t, t ∈ (build chains (.var v) type deletes).matched data ↔
      ∃ x, ⟨x, .iri Rdf.type, type⟩ ∈ data.graph none ∧
        t ∈ (build chains (.term x) type deletes).matched data := by
  intro t
  rw [mem_matched_iff_exists_term fun made => free made.isGenerated]
  refine exists_congr fun x => ⟨fun member => ?_, And.right⟩
  exact ⟨typed_of_mem_matched member, member⟩

theorem valid_twoDocuments : ∀ t ∈ twoDocuments.graph none, t.isValid := by
  simp [twoDocuments, Dataset.ofGraph, Dataset.graph_setGraph, Triple.isValid, Term.isIri,
    Term.isLiteral]

/-- The title of the second document is selected along with the time of the first. -/
theorem matched_variable_root_twoDocuments : ¬ IsGenerated ⟨"instance"⟩ ∧
    ⟨.iri "titled", .iri "title", .plain "Minutes"⟩ ∈
      (build titleField (.var ⟨"instance"⟩) (.iri "Document") false).matched twoDocuments := by
  have typed : ⟨.iri "titled", .iri Rdf.type, .iri "Document"⟩ ∈ twoDocuments.graph none :=
    mem_twoDocuments.mpr (by simp)
  have walk : (twoDocuments.graph none).Walk (.iri "titled") [.forward (.iri "title")]
      [.plain "Minutes"] :=
    .last (mem_twoDocuments.mpr (by simp [Step.triple, Step.forward]))
  have belongs : (twoDocuments.graph none).Belongs titleField (.iri "Document") (.iri "titled")
      ⟨.iri "titled", .iri "title", .plain "Minutes"⟩ :=
    .inr (.inr ⟨_, List.mem_singleton_self _, _, walk, .inl (List.mem_singleton_self _)⟩)
  refine ⟨not_isGenerated_instance, (matched_variable_root titleField _ (.iri "Document") false
    twoDocuments not_isGenerated_instance _).mpr ⟨.iri "titled", typed, ?_⟩⟩
  exact (mem_matched_term_iff valid_twoDocuments).mpr ⟨typed, belongs⟩

/-! ## A name that the query makes up as well -/

/-- At an instance a pattern of the root has become a loop: for the time of the last change, or for the
first step of a field, where the other end bears the name of the root. -/
def IsLoop (chains : PathMap) (v : Variable) (x : Term) (t : Triple) : Prop :=
  t.isValid ∧ (v = modified ∧ t = ⟨x, .iri Dct.modified, x⟩ ∨
    ∃ index step rest, (chains.values.filter (!·.isEmpty))[index]? = some (step :: rest) ∧
      v = node index 1 ∧ t = step.triple x x)

theorem IsLoop.makesUp (loop : IsLoop chains v x t) : MakesUp chains v := by
  rcases loop with ⟨-, ⟨same, -⟩ | ⟨index, step, rest, field, same, -⟩⟩
  · exact .inl same
  · refine .inr ⟨index, _, field, .self, 0, by simp, .inl rfl, ?_⟩
    rw [same, partOf_self]

/-- Every pattern of a field but the first has two variables that the query makes up. -/
private theorem first_or_ne {p : TriplePattern}
    (member : p ∈ patternsFrom index root hop (step :: rest)) :
    p = step.pattern root (.var (node index (hop + 1))) ∨ ∃ a ∈ p.vars, ∃ b ∈ p.vars, a ≠ b := by
  induction rest generalizing step root hop with
  | nil => exact .inl (List.mem_singleton.mp member)
  | cons next rest ih =>
    rw [patternsFrom_cons (List.cons_ne_nil _ _), List.mem_cons, List.mem_append] at member
    rcases member with same | guard | later
    · exact .inl same
    · right
      have other : ∀ part, part ≠ .self → node index (hop + 1) ≠ partOf part index (hop + 1) := by
        intro part differ same
        rw [← partOf_self, partOf_inj] at same
        exact differ same.1.symm
      rcases mem_guards.mp guard with rfl | rfl
      · exact ⟨_, by simp [TriplePattern.vars], _, by simp [TriplePattern.vars], other .uuid (by decide)⟩
      · exact ⟨_, by simp [TriplePattern.vars], _, by simp [TriplePattern.vars], other .type (by decide)⟩
    · rcases ih later with rfl | two
      · refine .inr ⟨node index (hop + 1), mem_vars_pattern.mpr (.inl (by simp)),
          node index (hop + 2), mem_vars_pattern.mpr (.inr (by simp)), ?_⟩
        simp [← partOf_self, partOf_inj]
      · exact .inr two

/-- The optional patterns with no other variable than that of the root are loops. -/
private theorem exists_known_iff {σ : Valuation} :
    (∃ group ∈ optionalGroups (.var v) chains, ∃ p ∈ group.patterns,
      (∀ w ∈ p.vars, w ∈ (Slot.var v).vars) ∧ t.isValid ∧ p.image σ = t) ↔
      IsLoop chains v (σ v) t := by
  simp only [Slot.vars_var, List.mem_singleton]
  constructor
  · rintro ⟨group, member, p, pattern, known, isValid, rfl⟩
    refine ⟨isValid, ?_⟩
    rcases eq_of_mem_optionalGroups member with rfl | ⟨index, step, rest, field, rfl⟩
    · obtain rfl := List.mem_singleton.mp pattern
      have same : modified = v := known modified (by simp [TriplePattern.vars, modified])
      exact .inl ⟨same.symm, by rw [← same]; rfl⟩
    · rcases first_or_ne pattern with rfl | ⟨a, one, b, two, differ⟩
      · have same : node index 1 = v := known _ (mem_vars_pattern.mpr (.inr (by simp)))
        exact .inr ⟨index, step, rest, field, same.symm, by rw [image_pattern, ← same]; rfl⟩
      · exact absurd ((known a one).trans (known b two).symm) differ
  · rintro ⟨isValid, ⟨rfl, rfl⟩ | ⟨index, step, rest, field, rfl, rfl⟩⟩
    · refine ⟨_, List.mem_cons_self, _, List.mem_singleton_self _, fun w there => ?_, isValid, rfl⟩
      simpa [TriplePattern.vars, Verb.vars, modified] using there
    · refine ⟨_, List.mem_cons_of_mem _ (mem_fieldGroups.mpr ⟨index, _, field, rfl⟩), _,
        first_mem_patternsFrom, fun w there => ?_, isValid, image_pattern ..⟩
      simpa [mem_vars_pattern] using there

/-- All that is selected is in the data exactly if the loops at the instances are. -/
theorem matched_within_iff (valid : ∀ t ∈ data.graph none, t.isValid) :
    (∀ t ∈ (build chains (.var v) type deletes).matched data, t ∈ data.graph none) ↔
      ∀ x, ⟨x, .iri Rdf.type, type⟩ ∈ data.graph none → ∀ t, IsLoop chains v x t →
        t ∈ data.graph none := by
  simp only [mem_matched_iff_contributes valid, exists_known_iff]
  constructor
  · intro within x typed t loop
    exact within t ⟨fun _ => x, typed, .inr (.inr loop)⟩
  · rintro loops t ⟨σ, typed, rfl | ⟨group, member, τ, -, holds, p, pattern, rfl⟩ | loop⟩
    · exact typed
    · exact (TriplePattern.holds_iff (simple_optionalGroups group member p pattern)).mp
        (holds p pattern)
    · exact loops (σ v) typed t loop

/-- Names that the query does not make up select the same in either mode, and nothing that the data do
not have. Under any name the variable stands for a term in turn, in all places of that name, and what
is selected is in the data exactly if the loops at the instances are. -/
theorem matched_named_root (chains : PathMap) (type : Term) (data : Dataset)
    (valid : ∀ t ∈ data.graph none, t.isValid) :
    (∀ v, ¬ MakesUp chains v → ∀ deletes,
      (∀ w, ¬ MakesUp chains w → ∀ deletes', (build chains (.var v) type deletes).matched data =
        (build chains (.var w) type deletes').matched data) ∧
      ∀ t ∈ (build chains (.var v) type deletes).matched data, t ∈ data.graph none) ∧
    ∀ v deletes,
      (∀ t, t ∈ (build chains (.var v) type deletes).matched data ↔ ∃ x,
        t ∈ data.construct (namedBody chains v x type).allPatterns (namedBody chains v x type)) ∧
      ((∀ t ∈ (build chains (.var v) type deletes).matched data, t ∈ data.graph none) ↔
        ∀ x, ⟨x, .iri Rdf.type, type⟩ ∈ data.graph none → ∀ t, IsLoop chains v x t →
          t ∈ data.graph none) := by
  constructor
  · intro v fresh deletes
    constructor
    · intro w freshToo deletes'
      refine SortedSet.ext_mem fun t => ?_
      rw [mem_matched_iff_exists_term fresh, mem_matched_iff_exists_term freshToo]
      rfl
    · refine (matched_within_iff valid).mpr fun x _ t loop => ?_
      exact absurd loop.makesUp fresh
  · intro v deletes
    exact ⟨fun t => mem_matched_iff_namedBody, matched_within_iff valid⟩

theorem matched_named_root_twoDocuments : (∀ t ∈ twoDocuments.graph none, t.isValid) ∧
    (build titleField (.var ⟨"instance"⟩) (.iri "Document") false).matched twoDocuments =
      (build titleField (.var ⟨"document"⟩) (.iri "Document") true).matched twoDocuments := by
  have one : ¬ MakesUp titleField ⟨"instance"⟩ := fun made => not_isGenerated_instance made.isGenerated
  have other : ¬ MakesUp titleField ⟨"document"⟩ := fun made =>
    absurd (head?_of_isGenerated made.isGenerated) (by simp)
  exact ⟨valid_twoDocuments, ((matched_named_root titleField (.iri "Document") twoDocuments
    valid_twoDocuments).1 _ one false).1 _ other true⟩

/-- A root with the name of the variable for the time of the last change: a document is selected as its
own time, which the data do not say and which no other name selects. -/
theorem named_root_captured :
    (¬ ∀ (chains : PathMap) (type : Term) (data : Dataset), (∀ t ∈ data.graph none, t.isValid) →
      ∀ v w deletes, (build chains (.var v) type deletes).matched data =
        (build chains (.var w) type deletes).matched data) ∧
    ¬ ∀ (chains : PathMap) (type : Term) (data : Dataset), (∀ t ∈ data.graph none, t.isValid) →
      ∀ v deletes, ∀ t ∈ (build chains (.var v) type deletes).matched data,
        t ∈ data.graph none := by
  have captured : ¬ ∀ t ∈ (build titleField (.var modified) (.iri "Document") false).matched
      twoDocuments, t ∈ twoDocuments.graph none := by
    intro within
    have typed : ⟨.iri "dated", .iri Rdf.type, .iri "Document"⟩ ∈ twoDocuments.graph none :=
      mem_twoDocuments.mpr (by simp)
    have loop : IsLoop titleField modified (.iri "dated")
        ⟨.iri "dated", .iri Dct.modified, .iri "dated"⟩ := ⟨rfl, .inl ⟨rfl, rfl⟩⟩
    have said := (matched_within_iff valid_twoDocuments).mp within _ typed _ loop
    simp [mem_twoDocuments, Dct.modified, Rdf.type, Term.plain] at said
  have plain : ∀ t ∈ (build titleField (.var ⟨"instance"⟩) (.iri "Document") false).matched
      twoDocuments, t ∈ twoDocuments.graph none :=
    (matched_within_iff valid_twoDocuments).mpr fun x _ t loop =>
      absurd loop.makesUp.isGenerated not_isGenerated_instance
  constructor
  · intro same
    rw [← same titleField (.iri "Document") twoDocuments valid_twoDocuments modified] at plain
    exact captured plain
  · intro within
    exact captured (within titleField (.iri "Document") twoDocuments valid_twoDocuments modified false)

end InstanceQuery
end Formulary
