import Formulary.Proofs.Reachability
import Mathlib.Logic.Function.Basic

/-!
# Valuations

What patterns say, apart from how they are answered: a valuation gives every variable a term, and a
pattern holds where its terms are a triple of the graph, or for a path the ends of one or more
steps. A row answers patterns exactly when it extends the seed, on their variables, by a valuation
under which all of them hold (`mem_extendAll`).
-/

namespace Formulary
open Std Relation

/-- A term for every variable. -/
abbrev Valuation := Variable → Term

/-! ## Rows under a valuation -/

namespace Solution

/-- The valuation gives the bound variables their values. -/
def Agrees (row : Solution) (σ : Valuation) : Prop := ∀ v t, row.get? v = some t → σ v = t

/-- Some valuation that agrees with the row. -/
def valuation (row : Solution) : Valuation := fun v => (row.get? v).getD default

/-- Binds variables to their values. -/
def assign (row : Solution) (vs : List Variable) (σ : Valuation) : Solution :=
  vs.foldl (fun row v => row.insert v (σ v)) row

variable {row extended : Solution} {σ τ : Valuation} {v : Variable} {vs ws : List Variable}

theorem agrees_empty : Agrees ∅ σ := nofun

theorem agrees_valuation : row.Agrees row.valuation := fun v t bound => by simp [valuation, bound]

theorem get?_assign : (row.assign vs σ).get? v = if v ∈ vs then some (σ v) else row.get? v := by
  induction vs generalizing row with
  | nil => simp [assign]
  | cons w rest ih =>
    rw [assign, List.foldl_cons, ← assign, ih, SortedMap.get?_insert]
    by_cases later : v ∈ rest
    · simp [later]
    · by_cases here : v = w
      · simp [here]
      · simp [later, here]

theorem assign_append : row.assign (vs ++ ws) σ = (row.assign vs σ).assign ws σ :=
  List.foldl_append

theorem assign_congr (same : ∀ v ∈ vs, σ v = τ v) : row.assign vs σ = row.assign vs τ := by
  refine SortedMap.ext_get? fun v => ?_
  rw [get?_assign, get?_assign]
  by_cases member : v ∈ vs
  · rw [if_pos member, if_pos member, same v member]
  · rw [if_neg member, if_neg member]

theorem agrees_assign (agrees : row.Agrees σ) : (row.assign vs σ).Agrees σ := by
  intro v t bound
  rw [get?_assign] at bound
  by_cases member : v ∈ vs
  · rw [if_pos member] at bound
    exact Option.some.inj bound
  · rw [if_neg member] at bound
    exact agrees v t bound

theorem get?_assign_of_bound (agrees : row.Agrees σ) {t : Term} (bound : row.get? v = some t) :
    (row.assign vs σ).get? v = some t := by
  rw [get?_assign]
  by_cases member : v ∈ vs
  · rw [if_pos member, agrees v t bound]
  · rw [if_neg member, bound]

/-- A valuation that agrees with the assigned row agrees with the row. -/
theorem agrees_of_assign (agrees : row.Agrees σ) (after : (row.assign vs σ).Agrees τ) :
    row.Agrees τ := fun v t bound => after v t (get?_assign_of_bound agrees bound)

/-- A valuation that agrees with the assigned row has the assigned values. -/
theorem eq_of_agrees_assign (after : (row.assign vs σ).Agrees τ) (member : v ∈ vs) : τ v = σ v :=
  after v (σ v) (by rw [get?_assign, if_pos member])

/-- The row extended by variables whose values meet a condition. -/
def Extension (row : Solution) (vs : List Variable) (condition : Valuation → Prop)
    (extended : Solution) : Prop :=
  ∃ σ, row.Agrees σ ∧ condition σ ∧ extended = row.assign vs σ

/-- Whether a condition looks at the listed variables only. -/
def Within (vs : List Variable) (condition : Valuation → Prop) : Prop :=
  ∀ σ τ : Valuation, (∀ v ∈ vs, σ v = τ v) → condition σ → condition τ

/-- Two extensions one after the other are one by both lists and both conditions. -/
theorem extension_append {first second : Valuation → Prop} (within : Within vs first) :
    (∃ middle, row.Extension vs first middle ∧ Extension middle ws second extended) ↔
      row.Extension (vs ++ ws) (fun σ => first σ ∧ second σ) extended := by
  constructor
  · rintro ⟨_, ⟨σ, agrees, holds, rfl⟩, τ, after, holdsAfter, rfl⟩
    have values : ∀ v ∈ vs, σ v = τ v := fun v member => (eq_of_agrees_assign after member).symm
    refine ⟨τ, agrees_of_assign agrees after, ⟨within σ τ values holds, holdsAfter⟩, ?_⟩
    rw [assign_append, assign_congr values]
  · rintro ⟨σ, agrees, ⟨holds, holdsAfter⟩, rfl⟩
    exact ⟨row.assign vs σ, ⟨σ, agrees, holds, rfl⟩, σ, agrees_assign agrees, holdsAfter,
      assign_append⟩

theorem extension_nil {condition : Prop} :
    row.Extension [] (fun _ => condition) extended ↔ condition ∧ extended = row := by
  constructor
  · rintro ⟨_, _, holds, rfl⟩
    exact ⟨holds, rfl⟩
  · rintro ⟨holds, rfl⟩
    exact ⟨_, agrees_valuation, holds, rfl⟩

end Solution

/-! ## Patterns under a valuation -/

namespace Slot

def vars : Slot → List Variable
  | .var v => [v]
  | .term _ => []

def under (σ : Valuation) : Slot → Term
  | .var v => σ v
  | .term t => t

variable {slot : Slot} {row extended : Solution} {σ τ : Valuation} {value : Term}

@[simp] theorem vars_var {v : Variable} : (Slot.var v).vars = [v] := rfl
@[simp] theorem vars_term {t : Term} : (Slot.term t).vars = [] := rfl
@[simp] theorem under_var {v : Variable} : (Slot.var v).under σ = σ v := rfl
@[simp] theorem under_term {t : Term} : (Slot.term t).under σ = t := rfl

theorem under_congr (same : ∀ v ∈ slot.vars, σ v = τ v) : slot.under σ = slot.under τ := by
  cases slot with
  | var v => exact same v (List.mem_singleton_self v)
  | term t => rfl

theorem value?_eq_some (bound : ∀ v ∈ slot.vars, row.get? v = some (σ v)) :
    slot.value? row = some (slot.under σ) := by
  cases slot with
  | var v => exact bound v (List.mem_singleton_self v)
  | term t => rfl

theorem under_eq_of_value? (agrees : row.Agrees σ) (bound : slot.value? row = some value) :
    slot.under σ = value := by
  cases slot with
  | var v => exact agrees v value bound
  | term t => exact Option.some.inj bound

/-- Binding a slot extends the row by the variable of the slot. -/
theorem bind?_eq_some_iff : slot.bind? row value = some extended ↔
    row.Extension slot.vars (fun σ => slot.under σ = value) extended := by
  cases slot with
  | term t =>
    rw [vars, bind?, show (fun σ => (Slot.term t).under σ = value) = fun _ => t = value from rfl,
      Solution.extension_nil]
    by_cases same : t = value <;> simp [same, eq_comm]
  | var v =>
    rw [vars, bind?]
    cases bound : row.get? v with
    | none =>
      constructor
      · intro made
        refine ⟨Function.update row.valuation v value, fun w t there => ?_, ?_, ?_⟩
        · have other : w ≠ v := fun same => by simp [same, bound] at there
          rw [Function.update_of_ne other]
          exact Solution.agrees_valuation w t there
        · exact Function.update_self ..
        · rw [Solution.assign, List.foldl_cons, List.foldl_nil, Function.update_self]
          exact (Option.some.inj made).symm
      · rintro ⟨σ, _, holds, rfl⟩
        rw [← (holds : σ v = value)]
        rfl
    | some there =>
      have unchanged : ∀ σ : Valuation, row.Agrees σ → row.assign [v] σ = row := fun σ agrees => by
        refine SortedMap.ext_get? fun w => ?_
        rw [Solution.get?_assign]
        by_cases same : w = v
        · rw [if_pos (List.mem_singleton.mpr same), same, bound, agrees v there bound]
        · rw [if_neg (mt List.mem_singleton.mp same)]
      constructor
      · intro made
        obtain ⟨same, rfl⟩ : there = value ∧ row = extended := by simpa using made
        exact ⟨row.valuation, Solution.agrees_valuation,
          (Solution.agrees_valuation v there bound).trans same,
          (unchanged _ Solution.agrees_valuation).symm⟩
      · rintro ⟨σ, agrees, holds, rfl⟩
        have same : there = value := (agrees v there bound).symm.trans holds
        simp [same, unchanged σ agrees]

end Slot

namespace Verb

def vars : Verb → List Variable
  | .var v => [v]
  | .term _ => []
  | .oneOrMore _ => []

def under (σ : Valuation) : Verb → Term
  | .var v => σ v
  | .term t => t
  | .oneOrMore t => t

/-- Whether the verb stands for one step. -/
def IsSimple : Verb → Prop
  | .oneOrMore _ => False
  | _ => True

end Verb

namespace TriplePattern

/-- The variables in the order in which they are bound. -/
def vars (p : TriplePattern) : List Variable := p.verb.vars ++ (p.subject.vars ++ p.object.vars)

/-- The triple that the pattern stands for. -/
def image (σ : Valuation) (p : TriplePattern) : Triple :=
  ⟨p.subject.under σ, p.verb.under σ, p.object.under σ⟩

/-- The graph holds what the pattern says: its triple, or a path between its ends. -/
def Holds (g : Graph) (σ : Valuation) (p : TriplePattern) : Prop :=
  match p.verb with
  | .oneOrMore predicate => TransGen (g.Edge predicate) (p.subject.under σ) (p.object.under σ)
  | _ => p.image σ ∈ g

variable {p : TriplePattern} {g : Graph} {row extended : Solution} {σ τ : Valuation} {t : Triple}

theorem holds_iff (simple : p.verb.IsSimple) : p.Holds g σ ↔ p.image σ ∈ g := by
  rcases p with ⟨s, _ | _ | _, o⟩
  · rfl
  · rfl
  · exact simple.elim

@[simp] theorem holds_term {s o : Slot} {predicate : Term} :
    Holds g σ ⟨s, .term predicate, o⟩ ↔ ⟨s.under σ, predicate, o.under σ⟩ ∈ g := Iff.rfl

@[simp] theorem vars_term {s o : Slot} {predicate : Term} :
    vars ⟨s, .term predicate, o⟩ = s.vars ++ o.vars := rfl

theorem image_congr (same : ∀ v ∈ p.vars, σ v = τ v) : p.image σ = p.image τ := by
  have verbs : p.verb.under σ = p.verb.under τ := by
    cases verb : p.verb with
    | var v => exact same v (List.mem_append_left _ (by simp [verb, Verb.vars]))
    | term t => rfl
    | oneOrMore t => rfl
  rw [image, image, verbs, Slot.under_congr fun v member => same v (by simp [vars, member]),
    Slot.under_congr fun v member => same v (by simp [vars, member])]

theorem holds_congr (same : ∀ v ∈ p.vars, σ v = τ v) : p.Holds g σ ↔ p.Holds g τ := by
  have images := image_congr same
  rcases p with ⟨s, _ | _ | predicate, o⟩
  · rw [Holds, Holds, images]
  · rw [Holds, Holds, images]
  · obtain ⟨subjects, -, objects⟩ := Triple.mk.injEq .. ▸ images
    rw [Holds, Holds, subjects, objects]

theorem within_holds (g : Graph) (p : TriplePattern) : Solution.Within p.vars (p.Holds g) :=
  fun _ _ same => (holds_congr same).mp

/-! ### Answers to one pattern -/

/-- Binding a pattern to a triple extends the row by the variables of the pattern. -/
theorem bindTriple?_eq_some_iff (simple : p.verb.IsSimple) : p.bindTriple? row t = some extended ↔
    row.Extension p.vars (fun σ => p.image σ = t) extended := by
  obtain ⟨s, verb, o⟩ := p
  obtain ⟨subject, predicate, object⟩ := t
  have ends : ∀ middle : Solution,
      ((s.bind? middle subject).bind fun next => o.bind? next object) = some extended ↔
        middle.Extension (s.vars ++ o.vars)
          (fun σ => s.under σ = subject ∧ o.under σ = object) extended := fun middle => by
    rw [Option.bind_eq_some_iff, ← Solution.extension_append fun σ τ same holds =>
      (Slot.under_congr same).symm.trans holds]
    simp only [Slot.bind?_eq_some_iff]
  cases verb with
  | oneOrMore => exact simple.elim
  | term verb =>
    by_cases same : verb = predicate
    · simp [bindTriple?, image, vars, Verb.vars, Verb.under, same, ends]
    · simp [bindTriple?, image, vars, Verb.vars, Verb.under, same, Solution.Extension]
  | var v =>
    have split : (fun σ : Valuation => image σ ⟨s, .var v, o⟩ = ⟨subject, predicate, object⟩) =
        fun σ => (Slot.var v).under σ = predicate ∧ s.under σ = subject ∧ o.under σ = object := by
      funext σ
      simp only [image, Verb.under, Slot.under, Triple.mk.injEq, eq_iff_iff]
      tauto
    rw [split, vars, show Verb.vars (.var v) = (Slot.var v).vars from rfl,
      ← Solution.extension_append fun σ τ same holds => (Slot.under_congr same).symm.trans holds]
    simp only [← Slot.bind?_eq_some_iff, ← ends]
    exact Option.bind_eq_some_iff

/-- A path starts where the pattern looks for starts, if its subject has no other value. -/
theorem mem_starts {slot : Slot} {predicate start reached : Term}
    (path : TransGen (g.Edge predicate) start reached)
    (admits : ∀ a, slot.value? row = some a → a = start) : start ∈ starts g slot predicate row := by
  rw [starts]
  cases bound : slot.value? row with
  | some known => simp [admits known bound]
  | none =>
    obtain ⟨next, edge, -⟩ := TransGen.head'_iff.mp path
    simp only [SortedSet.mem_ofList, List.mem_map, List.mem_filter, beq_iff_eq, SortedSet.mem_toList]
    exact ⟨_, ⟨edge, rfl⟩, rfl⟩

/-- A simple pattern answers a row triple by triple. -/
theorem extend_eq_filterMap (simple : p.verb.IsSimple) :
    p.extend g row = g.toList.filterMap (p.bindTriple? row) := by
  rcases p with ⟨s, _ | _ | _, o⟩
  · rfl
  · rfl
  · exact simple.elim

/-- A pattern answers a row by extending it with every valuation under which the pattern holds. -/
theorem mem_extend : extended ∈ p.extend g row ↔ row.Extension p.vars (p.Holds g) extended := by
  by_cases simple : p.verb.IsSimple
  · simp only [extend_eq_filterMap simple, List.mem_filterMap, bindTriple?_eq_some_iff simple,
      Solution.Extension, holds_iff simple, SortedSet.mem_toList]
    constructor
    · rintro ⟨t, member, σ, agrees, rfl, made⟩
      exact ⟨σ, agrees, member, made⟩
    · rintro ⟨σ, agrees, member, made⟩
      exact ⟨_, member, σ, agrees, rfl, made⟩
  · obtain ⟨s, _ | _ | predicate, o⟩ := p
    · exact absurd trivial simple
    · exact absurd trivial simple
    have ends : ∀ start reached : Term,
        ((s.bind? row start).bind fun next => o.bind? next reached) = some extended ↔
          row.Extension (s.vars ++ o.vars)
            (fun σ => s.under σ = start ∧ o.under σ = reached) extended := fun start reached => by
      rw [Option.bind_eq_some_iff, ← Solution.extension_append fun σ τ same holds =>
        (Slot.under_congr same).symm.trans holds]
      simp only [Slot.bind?_eq_some_iff]
    simp only [extend, List.mem_flatMap, List.mem_filterMap, SortedSet.mem_toList, Graph.mem_reachable,
      ends]
    constructor
    · rintro ⟨_, -, _, path, σ, agrees, ⟨rfl, rfl⟩, made⟩
      exact ⟨σ, agrees, path, made⟩
    · rintro ⟨σ, agrees, path, made⟩
      have admits : ∀ a, s.value? row = some a → a = s.under σ := fun a bound =>
        (Slot.under_eq_of_value? agrees bound).symm
      exact ⟨_, mem_starts path admits, _, path, σ, agrees, ⟨rfl, rfl⟩, made⟩

/-! ### Triples of a template -/

/-- Where its variables are bound, a simple pattern makes its triple if that is valid. -/
theorem instantiate?_of_bound (simple : p.verb.IsSimple)
    (bound : ∀ v ∈ p.vars, row.get? v = some (σ v)) :
    p.instantiate? row = if (p.image σ).isValid then some (p.image σ) else none := by
  have subject : p.subject.value? row = some (p.subject.under σ) :=
    Slot.value?_eq_some fun v member => bound v (by simp [vars, member])
  have object : p.object.value? row = some (p.object.under σ) :=
    Slot.value?_eq_some fun v member => bound v (by simp [vars, member])
  obtain ⟨s, verb, o⟩ := p
  cases verb with
  | oneOrMore => exact simple.elim
  | term t =>
    rw [instantiate?, subject, object]
    rfl
  | var v =>
    have verb : row.get? v = some (σ v) := bound v (by simp [vars, Verb.vars])
    rw [instantiate?, subject, object]
    simp only [verb]
    rfl

/-- A pattern with an unbound variable makes no triple. -/
theorem instantiate?_of_unbound {v : Variable} (member : v ∈ p.vars) (unbound : row.get? v = none) :
    p.instantiate? row = none := by
  obtain ⟨s, verb, o⟩ := p
  have ends : ∀ slot : Slot, v ∈ slot.vars → slot.value? row = none := fun slot there => by
    cases slot with
    | var w => exact List.mem_singleton.mp there ▸ unbound
    | term t => exact absurd there List.not_mem_nil
  rcases List.mem_append.mp member with there | there
  · cases verb with
    | var w =>
      have verb : row.get? w = none := List.mem_singleton.mp there ▸ unbound
      simp [instantiate?, verb]
    | term => exact absurd there List.not_mem_nil
    | oneOrMore => exact absurd there List.not_mem_nil
  · rcases List.mem_append.mp there with there | there
    · simp [instantiate?, ends s there]
    · cases verb <;> simp [instantiate?, ends o there]

end TriplePattern

/-! ## Answers to several patterns -/

/-- Patterns answer rows by extending one of them with every valuation under which all hold. -/
theorem mem_extendAll {g : Graph} {patterns : List TriplePattern} {rows : List Solution}
    {extended : Solution} : extended ∈ extendAll g patterns rows ↔
      ∃ row ∈ rows, row.Extension (patterns.flatMap (·.vars)) (fun σ => ∀ p ∈ patterns, p.Holds g σ)
        extended := by
  induction patterns generalizing rows with
  | nil =>
    simp only [extendAll, List.foldl_nil, List.flatMap_nil, List.not_mem_nil, false_implies,
      implies_true, Solution.extension_nil, true_and]
    exact ⟨fun member => ⟨extended, member, rfl⟩, fun ⟨row, member, same⟩ => same ▸ member⟩
  | cons p rest ih =>
    rw [extendAll, List.foldl_cons, ← extendAll, ih]
    simp only [List.mem_flatMap, TriplePattern.mem_extend, List.flatMap_cons, List.forall_mem_cons]
    constructor
    · rintro ⟨middle, ⟨row, member, first⟩, second⟩
      exact ⟨row, member, (Solution.extension_append (p.within_holds g)).mp ⟨middle, first, second⟩⟩
    · rintro ⟨row, member, both⟩
      obtain ⟨middle, first, second⟩ := (Solution.extension_append (p.within_holds g)).mpr both
      exact ⟨middle, ⟨row, member, first⟩, second⟩

/-! ## What templates make of answers -/

theorem mem_instantiateAll {template : List TriplePattern} {rows : List Solution} {t : Triple} :
    t ∈ instantiateAll template rows ↔
      ∃ row ∈ rows, ∃ p ∈ template, p.instantiate? row = some t := by
  simp only [instantiateAll, SortedSet.mem_ofList, List.mem_flatMap, List.mem_filterMap]

namespace Dataset

variable {d : Dataset} {template : List TriplePattern} {group : Group}

/-- Where all constructed triples are there, deleting gives exactly these. -/
theorem deleteWhere_fst (within : ∀ t ∈ d.construct template group, t ∈ d.graph none) :
    (d.deleteWhere template group).1 = d.construct template group :=
  SortedSet.ext_mem fun t => by
    simp only [deleteWhere, SortedSet.mem_filter, decide_eq_true_eq, and_iff_left_iff_imp]
    exact within t

theorem mem_graph_deleteWhere {t : Triple} : t ∈ (d.deleteWhere template group).2.graph none ↔
    t ∈ d.graph none ∧ t ∉ d.construct template group := by
  rw [deleteWhere, graph_setGraph, if_pos rfl, SortedSet.mem_diff]

theorem graph_deleteWhere_of_ne {name : GraphName} (other : name ≠ none) :
    (d.deleteWhere template group).2.graph name = d.graph name := by
  rw [deleteWhere, graph_setGraph, if_neg other]

end Dataset

end Formulary
