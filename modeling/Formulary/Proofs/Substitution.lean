import Formulary.Proofs.WellDesigned

/-!
# Substitution

A variable that the seed binds may as well be replaced by its value in every pattern of a group, at
any depth: the rows are the same, in the same order, but for that binding (`Group.evaluate_insert`).
A variable of the required patterns therefore stands for every term in turn
(`Dataset.mem_construct_iff_substitute`).
-/

namespace Formulary
open Std

variable {v w : Variable} {x value : Term} {row extended : Solution} {rows : List Solution} {g : Graph}

/-! ## A term in place of a variable -/

namespace Slot

def substitute (v : Variable) (x : Term) : Slot → Slot
  | .var w => if w = v then .term x else .var w
  | .term t => .term t

variable {slot : Slot}

theorem mem_vars_substitute : w ∈ (slot.substitute v x).vars ↔ w ∈ slot.vars ∧ w ≠ v := by
  cases slot with
  | term t => simp [substitute]
  | var u =>
    by_cases same : u = v
    · subst same
      simp [substitute]
    · simp only [substitute, if_neg same, vars_var, List.mem_singleton]
      exact ⟨fun here => ⟨here, here ▸ same⟩, And.left⟩

theorem substitute_of_not_mem (absent : v ∉ slot.vars) : slot.substitute v x = slot := by
  cases slot with
  | term t => rfl
  | var u => exact if_neg fun same => absent (List.mem_singleton.mpr same.symm)

/-- A slot has under the bound variable the value that it has with the term in its place. -/
theorem value?_insert : slot.value? (row.insert v x) = (slot.substitute v x).value? row := by
  cases slot with
  | term t => rfl
  | var u =>
    rw [value?, SortedMap.get?_insert, substitute]
    by_cases same : u = v
    · rw [if_pos same, if_pos same, value?]
    · rw [if_neg same, if_neg same, value?]

end Slot

namespace Verb

def substitute (v : Variable) (x : Term) : Verb → Verb
  | .var w => if w = v then .term x else .var w
  | .term t => .term t
  | .oneOrMore t => .oneOrMore t

variable {verb : Verb}

theorem mem_vars_substitute : w ∈ (verb.substitute v x).vars ↔ w ∈ verb.vars ∧ w ≠ v := by
  cases verb with
  | term t => simp [substitute, vars]
  | oneOrMore t => simp [substitute, vars]
  | var u =>
    by_cases same : u = v
    · subst same
      simp [substitute, vars]
    · simp only [substitute, if_neg same, vars, List.mem_singleton]
      exact ⟨fun here => ⟨here, here ▸ same⟩, And.left⟩

theorem substitute_of_not_mem (absent : v ∉ verb.vars) : verb.substitute v x = verb := by
  cases verb with
  | term t => rfl
  | oneOrMore t => rfl
  | var u => exact if_neg fun same => absent (List.mem_singleton.mpr same.symm)

theorem isSimple_substitute : (verb.substitute v x).IsSimple ↔ verb.IsSimple := by
  cases verb with
  | term t => rfl
  | oneOrMore t => rfl
  | var u => by_cases same : u = v <;> simp [substitute, IsSimple, same]

/-- The verb as a slot where it stands for one step. -/
def slot? : Verb → Option Slot
  | .var v => some (.var v)
  | .term t => some (.term t)
  | .oneOrMore _ => none

theorem slot?_substitute : (verb.substitute v x).slot? = verb.slot?.map (·.substitute v x) := by
  cases verb with
  | term t => rfl
  | oneOrMore t => rfl
  | var u => by_cases same : u = v <;> simp [substitute, slot?, Slot.substitute, same]

end Verb

namespace TriplePattern

def substitute (v : Variable) (x : Term) (p : TriplePattern) : TriplePattern :=
  ⟨p.subject.substitute v x, p.verb.substitute v x, p.object.substitute v x⟩

variable {p : TriplePattern}

theorem mem_vars_substitute : w ∈ (p.substitute v x).vars ↔ w ∈ p.vars ∧ w ≠ v := by
  simp only [vars, substitute, List.mem_append, Verb.mem_vars_substitute, Slot.mem_vars_substitute]
  tauto

theorem substitute_of_not_mem (absent : v ∉ p.vars) : p.substitute v x = p := by
  simp only [vars, List.mem_append, not_or] at absent
  rw [substitute, Slot.substitute_of_not_mem absent.2.1, Verb.substitute_of_not_mem absent.1,
    Slot.substitute_of_not_mem absent.2.2]

end TriplePattern

namespace Group

mutual

/-- The group with a term in place of a variable, in its optional groups as well. -/
def substitute (v : Variable) (x : Term) : Group → Group
  | ⟨patterns, optionals⟩ => ⟨patterns.map (·.substitute v x), substituteAll v x optionals⟩

def substituteAll (v : Variable) (x : Term) : List Group → List Group
  | [] => []
  | group :: rest => group.substitute v x :: substituteAll v x rest

end

theorem substituteAll_eq_map (groups : List Group) :
    substituteAll v x groups = groups.map (·.substitute v x) := by
  induction groups with
  | nil => rfl
  | cons group rest ih => rw [substituteAll, List.map_cons, ih]

mutual

theorem allPatterns_substitute : ∀ (group : Group),
    (group.substitute v x).allPatterns = group.allPatterns.map (·.substitute v x)
  | ⟨patterns, optionals⟩ => by
    rw [substitute, allPatterns, allPatterns, patternsOf_substituteAll optionals, List.map_append]

theorem patternsOf_substituteAll : ∀ (groups : List Group),
    patternsOf (substituteAll v x groups) = (patternsOf groups).map (·.substitute v x)
  | [] => rfl
  | group :: rest => by
    rw [substituteAll, patternsOf, patternsOf, allPatterns_substitute group,
      patternsOf_substituteAll rest, List.map_append]

end

variable {group : Group} {groups : List Group}

theorem not_mem_allVars_substitute : v ∉ (group.substitute v x).allVars := by
  rw [allVars, allPatterns_substitute]
  intro there
  obtain ⟨_, pattern, member⟩ := List.mem_flatMap.mp there
  obtain ⟨p, -, rfl⟩ := List.mem_map.mp pattern
  exact (TriplePattern.mem_vars_substitute.mp member).2 rfl

mutual

theorem substitute_of_not_mem : ∀ (group : Group), v ∉ group.allVars → group.substitute v x = group
  | ⟨patterns, optionals⟩, absent => by
    rw [allVars_mk, List.mem_append, not_or] at absent
    have same : patterns.map (·.substitute v x) = patterns :=
      (List.map_congr_left fun p pattern => TriplePattern.substitute_of_not_mem fun there =>
        absent.1 (List.mem_flatMap.mpr ⟨p, pattern, there⟩)).trans (List.map_id _)
    rw [substitute, same, substituteAll_of_not_mem optionals absent.2]

theorem substituteAll_of_not_mem : ∀ (groups : List Group), v ∉ allVarsOf groups →
    substituteAll v x groups = groups
  | [], _ => rfl
  | group :: rest, absent => by
    rw [allVarsOf_cons, List.mem_append, not_or] at absent
    rw [substituteAll, substitute_of_not_mem group absent.1, substituteAll_of_not_mem rest absent.2]

end

end Group

/-! ## What evaluation leaves alone -/

theorem get?_of_mem_extendAll {patterns : List TriplePattern} (absent : v ∉ patterns.flatMap (·.vars))
    (found : extended ∈ extendAll g patterns rows) : ∃ row ∈ rows, extended.get? v = row.get? v := by
  obtain ⟨row, member, σ, -, -, rfl⟩ := mem_extendAll.mp found
  exact ⟨row, member, by rw [Solution.get?_assign, if_neg absent]⟩

namespace Group

mutual

/-- A group binds no variables but its own. -/
theorem get?_of_mem_evaluate : ∀ (group : Group) {row extended : Solution}, v ∉ group.allVars →
    extended ∈ group.evaluate g row → extended.get? v = row.get? v
  | ⟨patterns, optionals⟩, row, extended, absent, found => by
    rw [allVars_mk, List.mem_append, not_or] at absent
    obtain ⟨middle, here, same⟩ := get?_of_mem_evaluateOptionals optionals absent.2 found
    obtain ⟨seed, member, before⟩ := get?_of_mem_extendAll absent.1 here
    rw [same, before, List.mem_singleton.mp member]

theorem get?_of_mem_evaluateOptionals : ∀ (groups : List Group) {rows : List Solution}
    {extended : Solution}, v ∉ allVarsOf groups → extended ∈ evaluateOptionals g groups rows →
    ∃ row ∈ rows, extended.get? v = row.get? v
  | [], _, extended, _, found => ⟨extended, found, rfl⟩
  | group :: rest, rows, extended, absent, found => by
    rw [allVarsOf_cons, List.mem_append, not_or] at absent
    obtain ⟨middle, here, same⟩ := get?_of_mem_evaluateOptionals rest absent.2 found
    obtain ⟨row, member, kept⟩ := List.mem_flatMap.mp here
    refine ⟨row, member, same.trans ?_⟩
    rcases mem_orKeep.mp kept with made | ⟨-, rfl⟩
    · exact get?_of_mem_evaluate group absent.1 made
    · rfl

end

end Group

/-! ## Binding and substituting -/

namespace Solution

variable {σ : Valuation} {vs : List Variable}

theorem agrees_insert (free : row.get? v = none) :
    Agrees (row.insert v x) σ ↔ σ v = x ∧ row.Agrees σ := by
  constructor
  · intro agrees
    refine ⟨agrees v x (by rw [SortedMap.get?_insert, if_pos rfl]), fun w t bound => ?_⟩
    have other : w ≠ v := by
      rintro rfl
      simp [free] at bound
    exact agrees w t (by rw [SortedMap.get?_insert, if_neg other, bound])
  · rintro ⟨rfl, agrees⟩ w t bound
    rw [SortedMap.get?_insert] at bound
    by_cases same : w = v
    · rw [if_pos same] at bound
      exact same ▸ Option.some.inj bound
    · rw [if_neg same] at bound
      exact agrees w t bound

/-- What is assigned replaces what was bound before. -/
theorem assign_insert (member : v ∈ vs) : assign (row.insert v x) vs σ = row.assign vs σ := by
  refine SortedMap.ext_get? fun w => ?_
  rw [get?_assign, get?_assign, SortedMap.get?_insert]
  by_cases same : w = v
  · rw [same, if_pos member, if_pos member]
  · rw [if_neg same]

theorem insert_comm {a b : Term} (other : w ≠ v) :
    (row.insert v a).insert w b = (row.insert w b).insert v a := by
  refine SortedMap.ext_get? fun u => ?_
  simp only [SortedMap.get?_insert]
  by_cases first : u = w
  · have second : u ≠ v := first ▸ other
    simp [first, other]
  · simp [first]

end Solution

namespace Slot

variable {slot one two : Slot}

theorem bind?_insert (free : row.get? v = none) :
    slot.bind? (row.insert v x) value =
      ((slot.substitute v x).bind? row value).map (·.insert v x) := by
  cases slot with
  | term t => by_cases same : t = value <;> simp [substitute, bind?, same]
  | var u =>
    by_cases here : u = v
    · subst here
      by_cases same : x = value <;> simp [substitute, bind?, SortedMap.get?_insert, same]
    · rw [substitute, if_neg here, bind?, bind?, SortedMap.get?_insert, if_neg here]
      cases bound : row.get? u with
      | none => exact congrArg some (Solution.insert_comm here)
      | some t => by_cases same : t = value <;> simp [same]

theorem get?_of_bind?_substitute (free : row.get? v = none)
    (made : (slot.substitute v x).bind? row value = some extended) : extended.get? v = none := by
  obtain ⟨σ, -, -, rfl⟩ := bind?_eq_some_iff.mp made
  rw [Solution.get?_assign, if_neg fun there => (mem_vars_substitute.mp there).2 rfl, free]

/-- The same for two slots one after the other. -/
theorem bind?_bind?_insert {other : Term} (free : row.get? v = none) :
    ((one.bind? (row.insert v x) value).bind fun next => two.bind? next other) =
      (((one.substitute v x).bind? row value).bind fun next =>
        (two.substitute v x).bind? next other).map (·.insert v x) := by
  rw [bind?_insert free, Option.bind_map, Option.map_bind]
  refine Option.bind_congr fun next made => ?_
  exact bind?_insert (get?_of_bind?_substitute free made)

end Slot

namespace TriplePattern

variable {p : TriplePattern} {t : Triple}

theorem bindTriple?_eq {verb : Slot} (simple : p.verb.slot? = some verb) :
    p.bindTriple? row t = (verb.bind? row t.predicate).bind fun next =>
      (p.subject.bind? next t.subject).bind fun next => p.object.bind? next t.object := by
  obtain ⟨s, kind, o⟩ := p
  cases kind with
  | term predicate =>
    obtain rfl := Option.some.inj simple
    by_cases same : predicate = t.predicate <;> simp [bindTriple?, Slot.bind?, same]
  | var u =>
    obtain rfl := Option.some.inj simple
    rfl
  | oneOrMore predicate => simp [Verb.slot?] at simple

theorem bindTriple?_insert (free : row.get? v = none) :
    p.bindTriple? (row.insert v x) t =
      ((p.substitute v x).bindTriple? row t).map (·.insert v x) := by
  cases simple : p.verb.slot? with
  | none =>
    obtain ⟨s, kind, o⟩ := p
    cases kind with
    | term predicate => simp [Verb.slot?] at simple
    | var u => simp [Verb.slot?] at simple
    | oneOrMore predicate => rfl
  | some verb =>
    have substituted : (p.substitute v x).verb.slot? = some (verb.substitute v x) := by
      rw [substitute, Verb.slot?_substitute, simple, Option.map_some]
    rw [bindTriple?_eq simple, bindTriple?_eq substituted, Slot.bind?_insert free, Option.bind_map,
      Option.map_bind]
    refine Option.bind_congr fun next made => ?_
    exact Slot.bind?_bind?_insert (Slot.get?_of_bind?_substitute free made)

/-- A pattern answers a row that binds the variable as it answers the row without it once the value
stands in its place. -/
theorem extend_insert (free : row.get? v = none) :
    p.extend g (row.insert v x) = ((p.substitute v x).extend g row).map (·.insert v x) := by
  by_cases simple : p.verb.IsSimple
  · rw [extend_eq_filterMap simple, extend_eq_filterMap (Verb.isSimple_substitute.mpr simple),
      List.map_filterMap]
    exact List.filterMap_congr fun t _ => bindTriple?_insert free
  · obtain ⟨s, _ | _ | predicate, o⟩ := p
    · exact absurd trivial simple
    · exact absurd trivial simple
    · simp only [extend, starts, substitute, Verb.substitute, Slot.value?_insert, List.map_flatMap,
        List.map_filterMap]
      refine List.flatMap_congr fun start _ => List.filterMap_congr fun reached _ => ?_
      exact Slot.bind?_bind?_insert free

/-- The triple that a pattern makes of a row with the variable bound is the one that it makes without
it once the value stands in its place. -/
theorem instantiate?_insert :
    p.instantiate? (row.insert v x) = (p.substitute v x).instantiate? row := by
  obtain ⟨s, verb, o⟩ := p
  cases verb with
  | term predicate =>
    simp only [instantiate?, substitute, Verb.substitute, Slot.value?_insert]
  | oneOrMore predicate =>
    simp only [instantiate?, substitute, Verb.substitute, Slot.value?_insert]
  | var u =>
    by_cases same : u = v
    · simp [instantiate?, substitute, Verb.substitute, Slot.value?_insert, SortedMap.get?_insert, same]
    · simp [instantiate?, substitute, Verb.substitute, Slot.value?_insert, SortedMap.get?_insert, same]

end TriplePattern

/-- No row binds the variable. -/
def Unbound (v : Variable) (rows : List Solution) : Prop := ∀ row ∈ rows, row.get? v = none

/-- Patterns without the variable leave it unbound. -/
theorem Unbound.extendAll {patterns : List TriplePattern} (free : Unbound v rows) :
    Unbound v (extendAll g (patterns.map (·.substitute v x)) rows) := by
  have absent : v ∉ (patterns.map (·.substitute v x)).flatMap (·.vars) := by
    intro there
    obtain ⟨_, pattern, member⟩ := List.mem_flatMap.mp there
    obtain ⟨p, -, rfl⟩ := List.mem_map.mp pattern
    exact (TriplePattern.mem_vars_substitute.mp member).2 rfl
  intro extended found
  obtain ⟨row, member, same⟩ := get?_of_mem_extendAll absent found
  rw [same, free row member]

theorem extendAll_insert {patterns : List TriplePattern} (free : Unbound v rows) :
    extendAll g patterns (rows.map (·.insert v x)) =
      (extendAll g (patterns.map (·.substitute v x)) rows).map (·.insert v x) := by
  induction patterns generalizing rows with
  | nil => rfl
  | cons p rest ih =>
    have first : (rows.map (·.insert v x)).flatMap (p.extend g) =
        (rows.flatMap ((p.substitute v x).extend g)).map (·.insert v x) := by
      rw [List.flatMap_map, List.map_flatMap]
      exact List.flatMap_congr fun row member => TriplePattern.extend_insert (free row member)
    have later : Unbound v (Formulary.extendAll g ([p].map (·.substitute v x)) rows) := free.extendAll
    rw [extendAll, List.foldl_cons, first, ← extendAll]
    exact ih later

/-- Patterns with the variable answer a row under each of its values. -/
theorem mem_extendAll_iff_exists_insert {patterns : List TriplePattern}
    (required : v ∈ patterns.flatMap (·.vars)) (free : row.get? v = none) :
    extended ∈ extendAll g patterns [row] ↔ ∃ x, extended ∈ extendAll g patterns [row.insert v x] := by
  simp only [mem_extendAll, List.mem_singleton, exists_eq_left, Solution.Extension,
    Solution.agrees_insert free, Solution.assign_insert required]
  constructor
  · rintro ⟨σ, agrees, holds⟩
    exact ⟨σ v, σ, ⟨rfl, agrees⟩, holds⟩
  · rintro ⟨x, σ, ⟨-, agrees⟩, holds⟩
    exact ⟨σ, agrees, holds⟩

theorem orKeep_map {f : Solution → Solution} {extensions : List Solution} :
    orKeep (f row) (extensions.map f) = (orKeep row extensions).map f := by
  cases extensions <;> rfl

namespace Group

mutual

/-- Evaluation under a seed that binds the variable is evaluation with the value in its place. -/
theorem evaluate_insert : ∀ (group : Group) {row : Solution}, row.get? v = none →
    group.evaluate g (row.insert v x) =
      ((group.substitute v x).evaluate g row).map (·.insert v x)
  | ⟨patterns, optionals⟩, row, free => by
    have seed : Unbound v [row] := fun other member => List.mem_singleton.mp member ▸ free
    have required : extendAll g patterns [row.insert v x] =
        (extendAll g (patterns.map (·.substitute v x)) [row]).map (·.insert v x) :=
      extendAll_insert seed
    rw [evaluate, substitute, evaluate, required, evaluateOptionals_insert optionals seed.extendAll]

theorem evaluateOptionals_insert : ∀ (groups : List Group) {rows : List Solution},
    Unbound v rows → evaluateOptionals g groups (rows.map (·.insert v x)) =
      (evaluateOptionals g (substituteAll v x groups) rows).map (·.insert v x)
  | [], _, _ => rfl
  | group :: rest, rows, free => by
    have first : (rows.map (·.insert v x)).flatMap (fun row => orKeep row (group.evaluate g row)) =
        (rows.flatMap fun row => orKeep row ((group.substitute v x).evaluate g row)).map
          (·.insert v x) := by
      rw [List.flatMap_map, List.map_flatMap]
      refine List.flatMap_congr fun row member => ?_
      rw [evaluate_insert group (free row member)]
      exact orKeep_map (f := fun row => row.insert v x)
    have later : Unbound v
        (rows.flatMap fun row => orKeep row ((group.substitute v x).evaluate g row)) := by
      intro extended found
      obtain ⟨row, member, kept⟩ := List.mem_flatMap.mp found
      rcases mem_orKeep.mp kept with made | ⟨-, rfl⟩
      · rw [get?_of_mem_evaluate _ not_mem_allVars_substitute made, free row member]
      · exact free extended member
    rw [substituteAll, evaluateOptionals, evaluateOptionals, first,
      evaluateOptionals_insert rest later]

end

/-! ## A variable of the required patterns -/

theorem mem_evaluate_iff_exists_insert {group : Group} (required : v ∈ group.vars)
    (free : row.get? v = none) : extended ∈ group.evaluate g row ↔
      ∃ x, extended ∈ group.evaluate g (row.insert v x) := by
  obtain ⟨patterns, optionals⟩ := group
  simp only [evaluate]
  constructor
  · intro found
    obtain ⟨middle, here, later⟩ := mem_evaluateOptionals.mp found
    obtain ⟨x, here⟩ := (mem_extendAll_iff_exists_insert required free).mp here
    exact ⟨x, mem_evaluateOptionals.mpr ⟨middle, here, later⟩⟩
  · rintro ⟨x, found⟩
    obtain ⟨middle, here, later⟩ := mem_evaluateOptionals.mp found
    exact mem_evaluateOptionals.mpr
      ⟨middle, (mem_extendAll_iff_exists_insert required free).mpr ⟨x, here⟩, later⟩

end Group

/-- What a template makes of the rows of a group with the variable among its required patterns is what
it makes with any term in place of the variable. -/
theorem Dataset.mem_construct_iff_substitute {d : Dataset} {template : List TriplePattern}
    {group : Group} {t : Triple} (required : v ∈ group.vars) : t ∈ d.construct template group ↔
      ∃ x, t ∈ d.construct (template.map (·.substitute v x)) (group.substitute v x) := by
  have free : (∅ : Solution).get? v = none := SortedMap.get?_empty
  simp only [construct, mem_instantiateAll, select, selectIn]
  constructor
  · rintro ⟨row, found, p, pattern, made⟩
    obtain ⟨x, found⟩ := (Group.mem_evaluate_iff_exists_insert required free).mp found
    rw [Group.evaluate_insert group free] at found
    obtain ⟨kept, there, rfl⟩ := List.mem_map.mp found
    rw [TriplePattern.instantiate?_insert] at made
    exact ⟨x, kept, there, _, List.mem_map_of_mem pattern, made⟩
  · rintro ⟨x, kept, there, _, substituted, made⟩
    obtain ⟨p, pattern, rfl⟩ := List.mem_map.mp substituted
    rw [← TriplePattern.instantiate?_insert] at made
    refine ⟨kept.insert v x, ?_, p, pattern, made⟩
    rw [Group.mem_evaluate_iff_exists_insert required free]
    refine ⟨x, ?_⟩
    rw [Group.evaluate_insert group free]
    exact List.mem_map_of_mem there

end Formulary
