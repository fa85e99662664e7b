import Formulary.Proofs.FieldVariables
import Formulary.Proofs.Valuation

/-!
# Guarded walks

A field leads along complete walks: every hop is a triple of the data, and every node between two
hops has an identifier and a type. The patterns of a field hold under a valuation exactly where its
nodes are such a walk, and then they stand for triples that the walk shows.
-/

namespace Formulary
open Std

/-- The triple of a step between two nodes. -/
def Step.triple (s : Step) (source target : Term) : Triple :=
  match s.direction with
  | .forward => ⟨source, s.predicate, target⟩
  | .inverse => ⟨target, s.predicate, source⟩

/-- The triples of the hops from a node along a chain through further nodes. -/
def hopTriples : Term → Chain → List Term → List Triple
  | source, step :: rest, node :: nodes => step.triple source node :: hopTriples node rest nodes
  | _, _, _ => []

namespace Graph

/-- The node has an identifier and a type. -/
def IsGuarded (g : Graph) (node : Term) : Prop :=
  (∃ u, ⟨node, .iri Mu.uuid, u⟩ ∈ g) ∧ ∃ c, ⟨node, .iri Rdf.type, c⟩ ∈ g

/-- The triple is an identifier or a type of the node. -/
def Guards (g : Graph) (node : Term) (t : Triple) : Prop :=
  t ∈ g ∧ t.subject = node ∧ (t.predicate = .iri Mu.uuid ∨ t.predicate = .iri Rdf.type)

/-- Complete walk from a node along a chain that has steps, with the nodes that it visits. -/
inductive Walk (g : Graph) : Term → Chain → List Term → Prop where
  | last {step : Step} {source target : Term} (edge : step.triple source target ∈ g) :
      Walk g source [step] [target]
  | next {step : Step} {source node : Term} {rest : Chain} {nodes : List Term}
      (edge : step.triple source node ∈ g) (guarded : g.IsGuarded node)
      (onward : Walk g node rest nodes) : Walk g source (step :: rest) (node :: nodes)

/-- What a walk shows: its hops, and all identifiers and types of the nodes between them. -/
def Shows (g : Graph) (source : Term) (chain : Chain) (nodes : List Term) (t : Triple) : Prop :=
  t ∈ hopTriples source chain nodes ∨ ∃ node ∈ nodes.dropLast, g.Guards node t

variable {g : Graph} {source node : Term} {chain : Chain} {nodes : List Term} {t : Triple}

theorem Walk.chain_ne_nil (walk : g.Walk source chain nodes) : chain ≠ [] := by
  cases walk <;> exact List.cons_ne_nil _ _

theorem Walk.nodes_ne_nil (walk : g.Walk source chain nodes) : nodes ≠ [] := by
  cases walk <;> exact List.cons_ne_nil _ _

theorem Walk.length_eq (walk : g.Walk source chain nodes) : nodes.length = chain.length := by
  induction walk with
  | last _ => rfl
  | next _ _ _ ih => rw [List.length_cons, List.length_cons, ih]

/-- All that a walk shows is in the graph. -/
theorem Walk.mem_of_shows (walk : g.Walk source chain nodes) (shown : g.Shows source chain nodes t) :
    t ∈ g := by
  rcases shown with hop | ⟨node, -, guard⟩
  · induction walk with
    | last edge => exact List.mem_singleton.mp hop ▸ edge
    | next edge _ _ ih =>
      rcases List.mem_cons.mp hop with rfl | hop
      · exact edge
      · exact ih hop
  · exact guard.1

/-- One identifier and one type for each node that has them. -/
structure GuardChoice (g : Graph) (uuid type : Term → Term) : Prop where
  uuid_mem : ∀ node, g.IsGuarded node → ⟨node, .iri Mu.uuid, uuid node⟩ ∈ g
  type_mem : ∀ node, g.IsGuarded node → ⟨node, .iri Rdf.type, type node⟩ ∈ g

theorem exists_guardChoice (g : Graph) : ∃ uuid type, g.GuardChoice uuid type := by
  classical
  refine ⟨fun node => if found : ∃ u, ⟨node, .iri Mu.uuid, u⟩ ∈ g then found.choose else default,
    fun node => if found : ∃ c, ⟨node, .iri Rdf.type, c⟩ ∈ g then found.choose else default, ?_, ?_⟩
  · intro node guarded
    rw [dif_pos guarded.1]
    exact guarded.1.choose_spec
  · intro node guarded
    rw [dif_pos guarded.2]
    exact guarded.2.choose_spec

/-- Every guard of a node is the choice of some choice. -/
theorem exists_guardChoice_of_guards (guard : g.Guards node t) : ∃ uuid type,
    g.GuardChoice uuid type ∧
      (t = ⟨node, .iri Mu.uuid, uuid node⟩ ∨ t = ⟨node, .iri Rdf.type, type node⟩) := by
  obtain ⟨uuid, type, choice⟩ := g.exists_guardChoice
  obtain ⟨s, p, o⟩ := t
  obtain ⟨member, rfl, rfl | rfl⟩ := guard
  · refine ⟨Function.update uuid s o, type, ⟨fun n guarded => ?_, choice.type_mem⟩, .inl ?_⟩
    · by_cases same : n = s
      · rw [same, Function.update_self]
        exact member
      · rw [Function.update_of_ne same]
        exact choice.uuid_mem n guarded
    · rw [Function.update_self]
  · refine ⟨uuid, Function.update type s o, ⟨choice.uuid_mem, fun n guarded => ?_⟩, .inr ?_⟩
    · by_cases same : n = s
      · rw [same, Function.update_self]
        exact member
      · rw [Function.update_of_ne same]
        exact choice.type_mem n guarded
    · rw [Function.update_self]

end Graph

namespace InstanceQuery

variable {g : Graph} {σ : Valuation} {index hop : Nat} {source : Slot} {chain : Chain}

/-! ## Patterns of a field -/

@[simp] theorem verb_pattern (s : Step) (source target : Slot) :
    (s.pattern source target).verb = .term s.predicate := by
  cases direction : s.direction <;> simp [Step.pattern, direction]

@[simp] theorem image_pattern (s : Step) (source target : Slot) :
    (s.pattern source target).image σ = s.triple (source.under σ) (target.under σ) := by
  cases direction : s.direction <;>
    simp [Step.pattern, Step.triple, TriplePattern.image, Verb.under, direction]

theorem mem_vars_pattern {s : Step} {source target : Slot} {v : Variable} :
    v ∈ (s.pattern source target).vars ↔ v ∈ source.vars ∨ v ∈ target.vars := by
  cases direction : s.direction <;>
    simp [Step.pattern, TriplePattern.vars, Verb.vars, direction, or_comm]

/-- The variable belongs to a node of the field after a number of hops. -/
def Beyond (index hop : Nat) (v : Variable) : Prop :=
  ∃ part later, hop < later ∧ v = partOf part index later

theorem beyond_node (index hop : Nat) : Beyond index hop (node index (hop + 1)) :=
  ⟨.self, hop + 1, hop.lt_succ_self, (partOf_self ..).symm⟩

theorem Beyond.weaken {v : Variable} (beyond : Beyond index (hop + 1) v) : Beyond index hop v :=
  let ⟨part, later, order, same⟩ := beyond
  ⟨part, later, by omega, same⟩

theorem not_beyond_partOf (part : NodePart) (index hop : Nat) :
    ¬ Beyond index hop (partOf part index hop) := by
  rintro ⟨part', later, order, same⟩
  have := (partOf_inj.mp same).2.2
  omega

/-- Induction along the patterns of a field, by the steps that are left. -/
theorem patternsFrom_cons {step : Step} {rest : Chain} (more : rest ≠ []) :
    patternsFrom index source hop (step :: rest) =
      step.pattern source (.var (node index (hop + 1))) :: (guards index (hop + 1) ++
        patternsFrom index (.var (node index (hop + 1))) (hop + 1) rest) := by
  cases rest with
  | nil => exact absurd rfl more
  | cons => rfl

theorem first_mem_patternsFrom {step : Step} {rest : Chain} :
    step.pattern source (.var (node index (hop + 1))) ∈
      patternsFrom index source hop (step :: rest) := by
  cases rest <;> exact List.mem_cons_self

theorem mem_guards {p : TriplePattern} : p ∈ guards index hop ↔
    p = ⟨.var (node index hop), .term (.iri Mu.uuid), .var (partOf .uuid index hop)⟩ ∨
      p = ⟨.var (node index hop), .term (.iri Rdf.type), .var (partOf .type index hop)⟩ := by
  simp [guards, partOf, NodePart.ending]

/-- What the patterns of a field from a node on look like: each has a variable of a later node, and
all its variables are such or that of the node. -/
structure FieldPattern (source : Slot) (index hop : Nat) (p : TriplePattern) : Prop where
  simple : p.verb.IsSimple
  own : ∃ v ∈ p.vars, Beyond index hop v
  within : ∀ v ∈ p.vars, v ∈ source.vars ∨ Beyond index hop v

private theorem fieldPattern_step (step : Step) (source : Slot) (index hop : Nat) :
    FieldPattern source index hop (step.pattern source (.var (node index (hop + 1)))) := by
  refine ⟨by simp [Verb.IsSimple], ⟨_, mem_vars_pattern.mpr (.inr (List.mem_singleton_self _)),
    beyond_node index hop⟩, fun v there => ?_⟩
  refine (mem_vars_pattern.mp there).imp_right fun same => ?_
  rw [List.mem_singleton.mp same]
  exact beyond_node index hop

private theorem fieldPattern_guard {p : TriplePattern} (member : p ∈ guards index (hop + 1)) :
    FieldPattern source index hop p := by
  have here : Beyond index hop (node index (hop + 1)) := beyond_node index hop
  have part : ∀ part, Beyond index hop (partOf part index (hop + 1)) := fun part =>
    ⟨part, hop + 1, by omega, rfl⟩
  rcases mem_guards.mp member with rfl | rfl
  all_goals
    refine ⟨trivial, ⟨_, by simp [TriplePattern.vars, Slot.vars], here⟩, fun v there => .inr ?_⟩
    simp only [TriplePattern.vars, Verb.vars, Slot.vars, List.nil_append, List.cons_append,
      List.mem_cons, List.not_mem_nil, or_false] at there
    rcases there with rfl | rfl
    · exact here
    · exact part _

theorem fieldPattern_of_mem {p : TriplePattern} (member : p ∈ patternsFrom index source hop chain) :
    FieldPattern source index hop p := by
  induction chain generalizing source hop with
  | nil => exact absurd member List.not_mem_nil
  | cons step rest ih =>
    by_cases more : rest = []
    · subst more
      rw [List.mem_singleton.mp member]
      exact fieldPattern_step step source index hop
    · rw [patternsFrom_cons more, List.mem_cons, List.mem_append] at member
      rcases member with rfl | guard | later
      · exact fieldPattern_step step source index hop
      · exact fieldPattern_guard guard
      · obtain ⟨simple, ⟨v, there, beyond⟩, within⟩ := ih later
        refine ⟨simple, ⟨v, there, beyond.weaken⟩, fun w inside => .inr ?_⟩
        rcases within w inside with same | later
        · rw [List.mem_singleton.mp same]
          exact beyond_node index hop
        · exact later.weaken

private theorem mem_vars_guards {v : Variable} : v ∈ (guards index hop).flatMap (·.vars) ↔
    ∃ part, v = partOf part index hop := by
  constructor
  · intro there
    obtain ⟨p, guard, there⟩ := List.mem_flatMap.mp there
    rcases mem_guards.mp guard with rfl | rfl
    · rcases List.mem_pair.mp there with same | same
      · exact ⟨.self, same.trans (partOf_self ..).symm⟩
      · exact ⟨.uuid, same⟩
    · rcases List.mem_pair.mp there with same | same
      · exact ⟨.self, same.trans (partOf_self ..).symm⟩
      · exact ⟨.type, same⟩
  · rintro ⟨part, rfl⟩
    cases part <;> simp [guards, partOf, NodePart.ending, TriplePattern.vars, Verb.vars, node]

/-- Besides the source, a field has a variable for each node, and two more for every node but the last. -/
theorem mem_vars_patternsFrom {v : Variable} (steps : chain ≠ []) :
    v ∈ (patternsFrom index source hop chain).flatMap (·.vars) ↔
      v ∈ source.vars ∨ ∃ part later, later < chain.length ∧
        (part = .self ∨ later + 1 < chain.length) ∧ v = partOf part index (hop + later + 1) := by
  induction chain generalizing source hop with
  | nil => exact absurd rfl steps
  | cons step rest ih =>
    by_cases more : rest = []
    · subst more
      simp only [patternsFrom, List.flatMap_cons, List.flatMap_nil, List.append_nil, mem_vars_pattern,
        Slot.vars_var, List.mem_singleton]
      refine or_congr_right ⟨?_, ?_⟩
      · rintro rfl
        exact ⟨.self, 0, by simp, .inl rfl, (partOf_self ..).symm⟩
      · rintro ⟨part, later, inside, asked, rfl⟩
        obtain rfl : later = 0 := by simpa using inside
        obtain rfl : part = .self := by simpa using asked
        exact partOf_self ..
    · have length : 0 < rest.length := List.length_pos_iff.mpr more
      rw [patternsFrom_cons more, List.flatMap_cons, List.flatMap_append, List.mem_append,
        List.mem_append, mem_vars_guards, ih more, mem_vars_pattern, or_assoc]
      refine or_congr_right ⟨?_, ?_⟩
      · have here : ∀ part, v = partOf part index (hop + 1) → ∃ part later,
            later < (step :: rest).length ∧ (part = .self ∨ later + 1 < (step :: rest).length) ∧
              v = partOf part index (hop + later + 1) := fun part same =>
          ⟨part, 0, by simp, .inr (by simpa using length), same⟩
        rintro (same | ⟨part, same⟩ | same | ⟨part, later, inside, asked, rfl⟩)
        · exact here .self ((List.mem_singleton.mp same).trans (partOf_self ..).symm)
        · exact here part same
        · exact here .self ((List.mem_singleton.mp same).trans (partOf_self ..).symm)
        · refine ⟨part, later + 1, by simpa using inside, asked.imp_right fun next => ?_, ?_⟩
          · simpa using next
          · rw [Nat.add_right_comm hop 1 later, Nat.add_assoc hop later 1]
      · rintro ⟨part, _ | later, inside, asked, rfl⟩
        · exact .inr (.inl ⟨part, rfl⟩)
        · refine .inr (.inr (.inr ⟨part, later, by simpa using inside, asked.imp_right ?_, ?_⟩))
          · intro next
            simpa using next
          · rw [Nat.add_right_comm hop 1 later, Nat.add_assoc hop later 1]

/-! ## Patterns and walks -/

/-- The variables of a field have the nodes of a walk for values, from some hop on. -/
def Visits (σ : Valuation) (index hop : Nat) (nodes : List Term) : Prop :=
  ∀ later n, nodes[later]? = some n → σ (node index (hop + later + 1)) = n

private theorem visits_nil : Visits σ index hop [] := by
  intro later n there
  simp at there

private theorem visits_cons {n : Term} {nodes : List Term} : Visits σ index hop (n :: nodes) ↔
    σ (node index (hop + 1)) = n ∧ Visits σ index (hop + 1) nodes := by
  have shift : ∀ later, hop + 1 + later + 1 = hop + (later + 1) + 1 := fun later => by omega
  constructor
  · intro visits
    refine ⟨visits 0 n rfl, fun later other there => ?_⟩
    rw [shift]
    exact visits (later + 1) other (by simpa using there)
  · rintro ⟨first, onward⟩ (_ | later) other there
    · exact first.trans (Option.some.inj there)
    · rw [← shift]
      exact onward later other (by simpa using there)

/-- Where the patterns of a field hold, its nodes are a walk that shows their triples. -/
theorem exists_walk (steps : chain ≠ [])
    (holds : ∀ p ∈ patternsFrom index source hop chain, p.Holds g σ) :
    ∃ nodes, g.Walk (source.under σ) chain nodes ∧ Visits σ index hop nodes ∧
      ∀ p ∈ patternsFrom index source hop chain, g.Shows (source.under σ) chain nodes (p.image σ) := by
  have triples : ∀ p ∈ patternsFrom index source hop chain, p.image σ ∈ g := fun p member =>
    (TriplePattern.holds_iff (fieldPattern_of_mem member).simple).mp (holds p member)
  clear holds
  induction chain generalizing source hop with
  | nil => exact absurd rfl steps
  | cons step rest ih =>
    let target := σ (node index (hop + 1))
    by_cases more : rest = []
    · subst more
      have edge : step.triple (source.under σ) target ∈ g := by
        simpa [patternsFrom, Slot.under] using triples _ (List.mem_singleton_self _)
      refine ⟨[target], .last edge, visits_cons.mpr ⟨rfl, visits_nil⟩, fun p member => .inl ?_⟩
      rw [List.mem_singleton.mp member, image_pattern]
      exact List.mem_singleton_self _
    · rw [patternsFrom_cons more] at triples ⊢
      obtain ⟨atStep, later⟩ := List.forall_mem_cons.mp triples
      obtain ⟨atGuards, onward⟩ := List.forall_mem_append.mp later
      rw [image_pattern] at atStep
      have guarded : g.IsGuarded target :=
        ⟨⟨_, atGuards _ (mem_guards.mpr (.inl rfl))⟩, ⟨_, atGuards _ (mem_guards.mpr (.inr rfl))⟩⟩
      obtain ⟨nodes, walk, visits, shown⟩ := ih more onward
      have dropped : (target :: nodes).dropLast = target :: nodes.dropLast :=
        List.dropLast_cons_of_ne_nil walk.nodes_ne_nil
      refine ⟨target :: nodes, .next atStep guarded walk, visits_cons.mpr ⟨rfl, visits⟩,
        fun p member => ?_⟩
      rw [List.mem_cons, List.mem_append] at member
      rcases member with rfl | guard | member
      · refine .inl ?_
        rw [image_pattern]
        exact List.mem_cons_self
      · refine .inr ⟨target, dropped ▸ List.mem_cons_self, atGuards p guard, ?_⟩
        rcases mem_guards.mp guard with rfl | rfl
        · exact ⟨rfl, .inl rfl⟩
        · exact ⟨rfl, .inr rfl⟩
      · rcases shown p member with hop | ⟨other, between, guard⟩
        · exact .inl (List.mem_cons_of_mem _ hop)
        · exact .inr ⟨other, dropped ▸ List.mem_cons_of_mem _ between, guard⟩

/-- The valuation of a node and of its chosen guards. -/
private def visit (σ : Valuation) (index hop : Nat) (target uuid type : Term) : Valuation :=
  Function.update (Function.update (Function.update σ (partOf .type index hop) type)
    (partOf .uuid index hop) uuid) (partOf .self index hop) target

private theorem visit_self (σ : Valuation) (index hop : Nat) (target uuid type : Term) :
    visit σ index hop target uuid type (node index hop) = target := by
  rw [visit, ← partOf_self, Function.update_self]

private theorem visit_uuid (σ : Valuation) (index hop : Nat) (target uuid type : Term) :
    visit σ index hop target uuid type (partOf .uuid index hop) = uuid := by
  rw [visit, Function.update_of_ne (by simp [partOf_inj]), Function.update_self]

private theorem visit_type (σ : Valuation) (index hop : Nat) (target uuid type : Term) :
    visit σ index hop target uuid type (partOf .type index hop) = type := by
  rw [visit, Function.update_of_ne (by simp [partOf_inj]),
    Function.update_of_ne (by simp [partOf_inj]), Function.update_self]

private theorem visit_other {v : Variable} (σ : Valuation) (target uuid type : Term)
    (other : ∀ part, v ≠ partOf part index hop) : visit σ index hop target uuid type v = σ v := by
  rw [visit, Function.update_of_ne (other _), Function.update_of_ne (other _),
    Function.update_of_ne (other _)]

/-- A step from a slot to the next node stands for the step between their values. -/
private theorem image_step {τ : Valuation} {start target : Term} (step : Step)
    (outside : ∀ v, ¬ Beyond index hop v → τ v = σ v)
    (apart : ∀ v ∈ source.vars, ¬ Beyond index hop v) (atSource : source.under σ = start)
    (atNode : τ (node index (hop + 1)) = target) :
    (step.pattern source (.var (node index (hop + 1)))).image τ = step.triple start target := by
  rw [image_pattern, Slot.under_congr fun v there => outside v (apart v there), atSource, Slot.under,
    atNode]

/-- The guards of a node show its identifier and its type. -/
private theorem image_guards {τ : Valuation} {hop : Nat} {target uuid type : Term}
    (atNode : τ (node index hop) = target) (uuidValue : τ (partOf .uuid index hop) = uuid)
    (typeValue : τ (partOf .type index hop) = type) :
    (guards index hop).map (·.image τ) =
      [⟨target, .iri Mu.uuid, uuid⟩, ⟨target, .iri Rdf.type, type⟩] := by
  rw [← atNode, ← uuidValue, ← typeValue]
  rfl

/-- Along every walk the patterns of a field stand for triples of the graph under some valuation, with
any choice of guards: for all hops and for the chosen guards. -/
theorem exists_valuation {start : Term} {nodes : List Term} {uuid type : Term → Term}
    (choice : g.GuardChoice uuid type) (walk : g.Walk start chain nodes)
    (atSource : source.under σ = start) (apart : ∀ v ∈ source.vars, ¬ Beyond index hop v) :
    ∃ τ : Valuation, (∀ v, ¬ Beyond index hop v → τ v = σ v) ∧ Visits τ index hop nodes ∧
      (∀ p ∈ patternsFrom index source hop chain, p.image τ ∈ g) ∧
      (∀ t ∈ hopTriples start chain nodes,
        ∃ p ∈ patternsFrom index source hop chain, p.image τ = t) ∧
      ∀ node ∈ nodes.dropLast, ∀ t, t = ⟨node, .iri Mu.uuid, uuid node⟩ ∨
        t = ⟨node, .iri Rdf.type, type node⟩ →
        ∃ p ∈ patternsFrom index source hop chain, p.image τ = t := by
  -- The walk is followed by its hops; what is beyond the current node is still free.
  induction walk generalizing source hop σ with
  | @last step start target edge =>
    let τ := visit σ index (hop + 1) target default default
    have outside : ∀ v, ¬ Beyond index hop v → τ v = σ v := fun v free =>
      visit_other _ _ _ _ fun part same => free ⟨part, hop + 1, by omega, same⟩
    have triple := image_step step outside apart atSource (visit_self ..)
    have visits : Visits τ index hop [target] := visits_cons.mpr ⟨visit_self .., visits_nil⟩
    refine ⟨τ, outside, visits, fun p member => ?_, fun t member => ?_, fun _ member => ?_⟩
    · rw [List.mem_singleton.mp member, triple]
      exact edge
    · exact ⟨_, List.mem_singleton_self _, triple.trans (List.mem_singleton.mp member).symm⟩
    · exact absurd member List.not_mem_nil
  | @next step start target rest nodes edge guarded onward ih =>
    let here := visit σ index (hop + 1) target (uuid target) (type target)
    have atHere : (Slot.var (node index (hop + 1))).under here = target := visit_self ..
    obtain ⟨τ, kept, visits, holds, hops, chosen⟩ := ih atHere fun v there => by
      rw [List.mem_singleton.mp there, ← partOf_self]
      exact not_beyond_partOf .self index (hop + 1)
    have outside : ∀ v, ¬ Beyond index hop v → τ v = σ v := fun v free => by
      rw [kept v fun later => free later.weaken]
      exact visit_other _ _ _ _ fun part same => free ⟨part, hop + 1, by omega, same⟩
    have part : ∀ part, τ (partOf part index (hop + 1)) = here (partOf part index (hop + 1)) :=
      fun part => kept _ (not_beyond_partOf part index (hop + 1))
    have atNode : τ (node index (hop + 1)) = target := by
      rw [← partOf_self, part, partOf_self]
      exact atHere
    have triple := image_step step outside apart atSource atNode
    have guardTriples := image_guards atNode ((part .uuid).trans (visit_uuid ..))
      ((part .type).trans (visit_type ..))
    rw [patternsFrom_cons onward.chain_ne_nil]
    refine ⟨τ, outside, visits_cons.mpr ⟨atNode, visits⟩, fun p member => ?_, fun t member => ?_,
      fun n member t guard => ?_⟩
    · rw [List.mem_cons, List.mem_append] at member
      rcases member with rfl | guard | later
      · rw [triple]
        exact edge
      · have made := guardTriples ▸ List.mem_map_of_mem (f := TriplePattern.image τ) guard
        rcases List.mem_pair.mp made with same | same
        · exact same ▸ choice.uuid_mem target guarded
        · exact same ▸ choice.type_mem target guarded
      · exact holds p later
    · rcases List.mem_cons.mp member with rfl | later
      · exact ⟨_, List.mem_cons_self, triple⟩
      · obtain ⟨p, pattern, same⟩ := hops t later
        exact ⟨p, List.mem_cons_of_mem _ (List.mem_append_right _ pattern), same⟩
    · rw [List.dropLast_cons_of_ne_nil onward.nodes_ne_nil] at member
      rcases List.mem_cons.mp member with rfl | later
      · have made : t ∈ (guards index (hop + 1)).map (·.image τ) :=
          guardTriples ▸ List.mem_pair.mpr guard
        obtain ⟨p, pattern, same⟩ := List.mem_map.mp made
        exact ⟨p, List.mem_cons_of_mem _ (List.mem_append_left _ pattern), same⟩
      · obtain ⟨p, pattern, same⟩ := chosen n later t guard
        exact ⟨p, List.mem_cons_of_mem _ (List.mem_append_right _ pattern), same⟩

/-- A field shows a triple under some valuation of its later variables exactly where some walk from
its root does. -/
theorem exists_image_iff {start : Term} {t : Triple} (steps : chain ≠ [])
    (atSource : source.under σ = start) (apart : ∀ v ∈ source.vars, ¬ Beyond index hop v) :
    (∃ τ : Valuation, (∀ v, ¬ Beyond index hop v → τ v = σ v) ∧
      (∀ p ∈ patternsFrom index source hop chain, p.Holds g τ) ∧
      ∃ p ∈ patternsFrom index source hop chain, p.image τ = t) ↔
      ∃ nodes, g.Walk start chain nodes ∧ g.Shows start chain nodes t := by
  constructor
  · rintro ⟨τ, outside, holds, p, member, rfl⟩
    obtain ⟨nodes, walk, -, shown⟩ := exists_walk steps holds
    rw [Slot.under_congr fun v there => outside v (apart v there), atSource] at walk shown
    exact ⟨nodes, walk, shown p member⟩
  · rintro ⟨nodes, walk, shown⟩
    have answer : ∀ {uuid type : Term → Term}, g.GuardChoice uuid type →
        (t ∈ hopTriples start chain nodes ∨ ∃ node ∈ nodes.dropLast,
          t = ⟨node, .iri Mu.uuid, uuid node⟩ ∨ t = ⟨node, .iri Rdf.type, type node⟩) →
        ∃ τ : Valuation, (∀ v, ¬ Beyond index hop v → τ v = σ v) ∧
          (∀ p ∈ patternsFrom index source hop chain, p.Holds g τ) ∧
          ∃ p ∈ patternsFrom index source hop chain, p.image τ = t := by
      intro uuid type choice what
      obtain ⟨τ, outside, -, triples, hops, chosen⟩ := exists_valuation choice walk atSource apart
      refine ⟨τ, outside, fun p member => ?_, ?_⟩
      · exact (TriplePattern.holds_iff (fieldPattern_of_mem member).simple).mpr (triples p member)
      · rcases what with hop | ⟨node, between, guard⟩
        · exact hops t hop
        · exact chosen node between t guard
    rcases shown with hop | ⟨node, between, guard⟩
    · obtain ⟨uuid, type, choice⟩ := g.exists_guardChoice
      exact answer choice (.inl hop)
    · obtain ⟨uuid, type, choice, which⟩ := Graph.exists_guardChoice_of_guards guard
      exact answer choice (.inr ⟨node, between, which⟩)

end InstanceQuery
end Formulary
