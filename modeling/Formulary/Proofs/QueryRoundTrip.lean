import Formulary.Proofs.InstanceSelection
import Formulary.Proofs.SparqlRoundTrip

/-!
# Queries for instances read back

When the text of an instance query is read as that query. The names that a query makes up may always
stand in SPARQL, so that it depends on the root, the type and the predicates of the fields; and where
the root or the type may not stand there, the text is read as something else, or not at all
(`InstanceQuery.readQuery?_build_iff`).
-/

namespace Formulary
open Grammar Document

/-! ## What reads back may stand in SPARQL -/

namespace Grammar.Sparql

variable {rest : List Char} {tokens later : List Token}

/-- A variable that is read as itself has the name of one. -/
theorem isSparql_of_variable {v : Variable}
    (read : sparql.tokens? (v.text.toList ++ ' ' :: rest) = some tokens)
    (found : slot? tokens = some (.var v, later)) : v.IsSparql := by
  obtain ⟨name⟩ := v
  have text : (Variable.mk name).text.toList = '?' :: name.toList := by simp [Variable.text]
  rw [text, List.cons_append] at read
  obtain ⟨t, after, more, taken, rfl⟩ := Lexicon.exists_token rfl (by decide) read
  have named : sparql.token? ('?' :: (name.toList ++ ' ' :: rest)) =
      takeVariable? (name.toList ++ ' ' :: rest) := rfl
  rw [named, takeVariable?] at taken
  split at taken
  · next starts =>
    obtain ⟨rfl, -⟩ := Prod.mk.inj (Option.some.inj taken)
    obtain ⟨run, -⟩ : (name.toList ++ ' ' :: rest).takeWhile inVariable = name.toList ∧ more = later := by
      simpa [slot?, String.ext_iff] using found
    refine Bool.and_eq_true_iff.mpr ⟨run ▸ starts, ?_⟩
    rw [← run]
    exact List.all_takeWhile
  · cases taken

/-- An IRI that is read as itself may stand between angle brackets. -/
theorem isSparql_of_iri {value : String}
    (read : sparql.tokens? ((Term.iri value).text.toList ++ ' ' :: rest) = some tokens)
    (found : slot? tokens = some (.term (.iri value), later)) : (Term.iri value).IsSparql := by
  have text : (Term.iri value).text.toList = '<' :: (value.toList ++ ['>']) := by simp [Term.text]
  rw [text, List.cons_append, List.append_assoc, List.singleton_append] at read
  obtain ⟨t, after, more, taken, rfl⟩ := Lexicon.exists_token rfl (by decide) read
  have reference : sparql.token? ('<' :: (value.toList ++ '>' :: ' ' :: rest)) =
      (reference? (value.toList ++ '>' :: ' ' :: rest)).map (Prod.map .reference id) := by
    rw [Lexicon.token?, Lexicon.common?]
    simp [sparql]
  rw [reference] at taken
  obtain ⟨⟨found', after'⟩, made, same⟩ := Option.map_eq_some_iff.mp taken
  obtain ⟨rfl, -⟩ := Prod.mk.inj same
  obtain ⟨rfl, -⟩ : found' = value.toList ∧ more = later := by
    simpa [slot?, String.ext_iff] using found
  exact plain_of_reference? made

/-- What an argument may stand for: a variable or an IRI. -/
def IsArgument : Slot → Prop
  | .var _ => True
  | .term t => t.isIri

theorem isSparql_of_slot? {s : Slot} (argument : IsArgument s)
    (read : sparql.tokens? (s.text.toList ++ ' ' :: rest) = some tokens)
    (found : slot? tokens = some (s, later)) : s.IsSparql := by
  match s, argument with
  | .var v, _ => exact isSparql_of_variable read found
  | .term (.iri value), _ => exact isSparql_of_iri read found

/-! ### Productions -/

theorem exists_tokens_of_readWhole? {α : Type} {read : Nat → List Token → Option (α × List Token)}
    {value : α} {text : List Char} (made : readWhole? read text = some value) :
    ∃ tokens fuel rest, sparql.tokens? text = some tokens ∧ read fuel tokens = some (value, rest) := by
  obtain ⟨tokens, spelled, made⟩ := Option.bind_eq_some_iff.mp made
  obtain ⟨⟨found, rest⟩, taken, made⟩ := Option.bind_eq_some_iff.mp made
  dsimp only at made
  split at made
  · exact ⟨tokens, _, rest, spelled, Option.some.inj made ▸ taken⟩
  · cases made

/-- The template of a query comes from the patterns after its first brace. -/
theorem patterns_of_query? {fuel : Nat} {deletes : Bool} {tokens rest : List Token} {q : InstanceQuery}
    (read : query? fuel (.word (if deletes then "DELETE" else "CONSTRUCT") :: .mark '\x7b' :: tokens) =
      some (q, rest)) : (patterns fuel tokens).1 = q.template := by
  simp only [query?, mode?_tokens, braced?, Option.bind_eq_bind, Option.bind_some, Option.pure_def,
    Option.bind_eq_some_iff, Prod.exists, Option.some.injEq, Prod.mk.injEq] at read
  obtain ⟨_, _, ⟨inside, opened, _, -, rfl, -⟩, _, -, _, _, -, rfl, -⟩ := read
  obtain rfl : tokens = inside := by simpa [expect?] using opened
  rfl

theorem pattern?_of_patterns {fuel : Nat} {tokens : List Token} {p : TriplePattern}
    {others : List TriplePattern} (found : (patterns fuel tokens).1 = p :: others) :
    ∃ rest, pattern? tokens = some (p, rest) := by
  cases fuel with
  | zero => cases found
  | succ fuel =>
    rw [patterns] at found
    split at found
    · next first rest read => exact ⟨rest, (List.cons.inj found).1 ▸ read⟩
    · cases found

theorem subject_of_pattern? {tokens rest : List Token} {p : TriplePattern}
    (read : pattern? tokens = some (p, rest)) : ∃ later, slot? tokens = some (p.subject, later) := by
  obtain ⟨⟨subject, later⟩, found, read⟩ := Option.bind_eq_some_iff.mp read
  simp only [Option.bind_eq_bind, Option.pure_def, Option.bind_eq_some_iff, Prod.exists,
    Option.some.injEq, Prod.mk.injEq] at read
  obtain ⟨_, _, -, _, _, -, _, -, rfl, -⟩ := read
  exact ⟨later, found⟩

/-- The object of a pattern with one predicate is read right after this. -/
theorem object_of_pattern? {subject object : Slot} {predicate : String} {tokens rest : List Token}
    (legal : subject.IsSparql)
    (read : pattern? (subject.tokens ++ .reference predicate.toList :: tokens) =
      some (⟨subject, .term (.iri predicate), object⟩, rest)) :
    ∃ later, slot? tokens = some (object, later) := by
  have apart : follows (.reference predicate.toList :: tokens) := rfl
  rw [pattern?, slot?_tokens legal apart] at read
  simp only [Option.bind_eq_bind, Option.bind_some, Option.pure_def, Option.bind_eq_some_iff,
    Prod.exists, Option.some.injEq, Prod.mk.injEq, TriplePattern.mk.injEq] at read
  obtain ⟨verb, after, verbRead, _, later, found, _, -, ⟨-, rfl, rfl⟩, -⟩ := read
  refine ⟨later, ?_⟩
  unfold verb? at verbRead
  split at verbRead
  · cases verbRead
  · next notRepeated =>
    obtain ⟨rfl, -⟩ : tokens = after ∧ True := by simpa [slot?, verbOf] using verbRead
    exact found

end Grammar.Sparql

namespace InstanceQuery

open Grammar.Sparql

/-- A query whose text is read back has a subject and an object in its first pattern that may stand in
SPARQL. -/
theorem isSparql_of_readQuery? {q : InstanceQuery} {root : Slot} {predicate : String} {type : Term}
    {others : List TriplePattern} (argument : IsArgument root) (isIri : type.isIri)
    (plain : (Term.iri predicate).IsSparql)
    (first : q.template = ⟨root, .term (.iri predicate), .term type⟩ :: others)
    (read : readQuery? q.text.toList = some q) : root.IsSparql ∧ type.IsSparql := by
  let mode := if q.deletes then "DELETE" else "CONSTRUCT"
  obtain ⟨tail, written⟩ : ∃ tail, q.text.toList = (mode.toList ++ ' ' :: ['\x7b']) ++
      '\n' :: ' ' :: ' ' :: (root.text.toList ++ ' ' :: ((Term.iri predicate).text.toList ++
        ' ' :: (type.text.toList ++ ' ' :: tail))) := by
    refine ⟨(".\n" ++ templateText others 1 ++ "\x7d\nWHERE " ++ q.body.text ++ "\n").toList, ?_⟩
    simp [text, first, templateText, line, indent, TriplePattern.text, mode, Verb.text, Slot.text]
  obtain ⟨tokens, fuel, rest, spelled, made⟩ := exists_tokens_of_readWhole? read
  have opening : sparql.Spells (mode.toList ++ ' ' :: ['\x7b']) [.word mode, .mark '\x7b'] := by
    have word : sparql.Spells mode.toList [.word mode] := by
      dsimp only [mode]
      split <;> exact spells_word (by decide)
    exact word.join (spells_mark (by decide)) (c := ' ') rfl
  rw [written, opening _ (ends_cons rfl), Lexicon.tokens?_space rfl, Lexicon.tokens?_space rfl,
    Lexicon.tokens?_space rfl] at spelled
  obtain ⟨inside, spelledInside, rfl⟩ := Option.map_eq_some_iff.mp spelled
  have template : (patterns fuel inside).1 = q.template := patterns_of_query? made
  obtain ⟨later, pattern⟩ := pattern?_of_patterns (template.trans first)
  obtain ⟨_, found⟩ := subject_of_pattern? pattern
  have legal : root.IsSparql := isSparql_of_slot? argument spelledInside found
  have upToObject := legal.spells_text.join plain.spells_text (c := ' ') rfl
  rw [← List.cons_append, ← List.append_assoc, upToObject _ (ends_cons rfl),
    Lexicon.tokens?_space rfl] at spelledInside
  obtain ⟨after, spelledAfter, rfl⟩ := Option.map_eq_some_iff.mp spelledInside
  rw [Term.tokens_iri, List.append_assoc, List.singleton_append] at pattern
  obtain ⟨_, found⟩ := object_of_pattern? legal pattern
  exact ⟨legal, isSparql_of_slot? (s := .term type) isIri spelledAfter found⟩

/-! ## Queries for instances -/

variable {chains : PathMap} {root source : Slot} {type : Term} {deletes : Bool} {chain : Chain}
  {index hop : Nat} {p : TriplePattern}

theorem isSparql_of_isGenerated {v : Variable} (generated : IsGenerated v) : v.IsSparql := by
  refine isVariable_of_ascii ?_
  rcases generated with rfl | ⟨part, index, hop, rfl⟩
  · decide
  · have number : ∀ n : Nat, ((toString n).toList.all fun c => c.isAlphanum || c == '_') := fun n =>
      List.all_eq_true.mpr fun c member => by
        simp [Char.isAlphanum, isDigit_of_mem_number member]
    have ending : part.ending.toList.all fun c => c.isAlphanum || c == '_' := by
      cases part <;> decide
    rw [toList_partOf]
    simp only [List.all_append, number, ending, Bool.and_true]
    decide

theorem isSparql_node (index hop : Nat) : (Slot.var (node index hop)).IsSparql :=
  isSparql_of_isGenerated (.inr ⟨.self, index, hop, (partOf_self ..).symm⟩)

theorem isSparql_pattern {s : Step} {target : Slot} (legal : source.IsSparql)
    (predicate : s.predicate.IsSparql) (legal' : target.IsSparql) :
    (s.pattern source target).IsSparql := by
  cases direction : s.direction with
  | forward =>
    rw [Step.pattern, direction]
    exact ⟨legal, predicate, legal'⟩
  | inverse =>
    rw [Step.pattern, direction]
    exact ⟨legal', predicate, legal⟩

theorem isSparql_guards (member : p ∈ guards index hop) : p.IsSparql := by
  have part : ∀ part, (Slot.var (partOf part index hop)).IsSparql := fun part =>
    isSparql_of_isGenerated (.inr ⟨part, index, hop, rfl⟩)
  rcases mem_guards.mp member with rfl | rfl
  · exact ⟨isSparql_node index hop, (by decide : (Term.iri Mu.uuid).IsSparql), part _⟩
  · exact ⟨isSparql_node index hop, (by decide : (Term.iri Rdf.type).IsSparql), part _⟩

theorem isSparql_patternsFrom (legal : source.IsSparql) (steps : ∀ s ∈ chain, s.predicate.IsSparql)
    (member : p ∈ patternsFrom index source hop chain) : p.IsSparql := by
  induction chain generalizing source hop with
  | nil => exact absurd member List.not_mem_nil
  | cons step rest ih =>
    obtain ⟨here, later⟩ := List.forall_mem_cons.mp steps
    have first := isSparql_pattern legal here (isSparql_node index (hop + 1))
    by_cases more : rest = []
    · subst more
      exact List.mem_singleton.mp member ▸ first
    · rw [patternsFrom_cons more, List.mem_cons, List.mem_append] at member
      rcases member with rfl | guard | member
      · exact first
      · exact isSparql_guards guard
      · exact ih (isSparql_node index (hop + 1)) later member

/-- A query may stand in SPARQL where its root, its type and the predicates of its fields may. -/
theorem isSparql_build (legal : root.IsSparql) (legal' : type.IsSparql)
    (steps : ∀ chain ∈ chains.values, ∀ s ∈ chain, s.predicate.IsSparql) :
    (build chains root type deletes).IsSparql := by
  have each : ∀ p ∈ (bodyOf chains root type).allPatterns, p.IsSparql := by
    intro p member
    rcases mem_allPatterns_bodyOf.mp member with rfl | ⟨group, asked, member⟩
    · exact ⟨legal, (by decide : (Term.iri Rdf.type).IsSparql), legal'⟩
    rcases List.mem_cons.mp asked with rfl | field
    · rw [List.mem_singleton.mp member]
      exact ⟨legal, (by decide : (Term.iri Dct.modified).IsSparql), isSparql_of_isGenerated (.inl rfl)⟩
    · obtain ⟨index, chain, numbered, rfl⟩ := mem_fieldGroups.mp field
      exact isSparql_patternsFrom legal (steps chain (listed_of_field numbered).1) member
  exact List.forall_mem_append.mpr ⟨each, each⟩

/-- Of a query whose fields may stand in SPARQL, the text is read back exactly if the root and the type
may stand there too. -/
theorem readQuery?_build_iff (argument : IsArgument root) (isIri : type.isIri)
    (steps : ∀ chain ∈ chains.values, ∀ s ∈ chain, s.predicate.IsSparql) :
    readQuery? (build chains root type deletes).text.toList = some (build chains root type deletes) ↔
      root.IsSparql ∧ type.IsSparql := by
  constructor
  · exact isSparql_of_readQuery? argument isIri (by decide : (Term.iri Rdf.type).IsSparql) rfl
  · exact fun ⟨legal, legal'⟩ => readQuery?_text (isSparql_build legal legal' steps)

end InstanceQuery

end Formulary
