import Formulary.Proofs.SnapshotDelta
import Formulary.Proofs.SparqlRoundTrip

/-!
# Updates read back

What the grammar of SPARQL makes of the text of an update: the statements that were written, in their
order, whatever the texts of the literals in them are (`Grammar.readUpdates?_text`). A delta has at
most three statements, and its update text says as much of it as its patterns for blank nodes leave
(`Delta.updateText_faithful`).
-/

namespace Formulary
open Grammar

/-- The pattern that has the terms of the triple for its slots. -/
def Triple.asPattern (t : Triple) : TriplePattern := ⟨.term t.subject, .term t.predicate, .term t.object⟩

/-- All three terms may stand in SPARQL. -/
def Triple.IsSparql (t : Triple) : Prop := t.asPattern.IsSparql

instance (t : Triple) : Decidable t.IsSparql := inferInstanceAs (Decidable t.asPattern.IsSparql)

theorem Triple.text_asPattern (t : Triple) : t.asPattern.text = t.text := rfl

theorem Delta.tripleLines_eq (triples : List Triple) :
    tripleLines triples = templateText (triples.map Triple.asPattern) 2 := by
  simp only [tripleLines, templateText, List.map_map, Function.comp_def, Triple.text_asPattern]

/-! ## Statements -/

namespace Grammar.Sparql.Update

/-- A term that may name a graph in SPARQL. -/
def IsGraph (graph : Term) : Prop := graph.isIri ∧ graph.IsSparql

/-- The terms may stand in SPARQL, and no blank node in what is deleted. -/
def IsSparql : Update → Prop
  | .deleteData graph triples => IsGraph graph ∧ ∀ t ∈ triples, t.IsSparql ∧ t.hasBlank = false
  | .deleteWhere graph template source body => IsGraph graph ∧ IsGraph source ∧
      (∀ p ∈ template, p.IsSparql ∧ hasBlank p = false) ∧ ∀ p ∈ body, p.IsSparql
  | .insertData graph triples => IsGraph graph ∧ ∀ t ∈ triples, t.IsSparql

/-- The statement of an update, as deltas write it. -/
def text : Update → String
  | .deleteData graph triples => "DELETE DATA " ++ Delta.graphBlock graph (Delta.tripleLines triples)
  | .deleteWhere graph template source body =>
    "DELETE " ++ Delta.graphBlock graph (templateText template 2) ++ "\nWHERE " ++
      Delta.graphBlock source (templateText body 2)
  | .insertData graph triples => "INSERT DATA " ++ Delta.graphBlock graph (Delta.tripleLines triples)

/-! ### Tokens -/

/-- The tokens of patterns in a graph. -/
def blockTokens (graph : Term) (list : List TriplePattern) : List Token :=
  .mark '\x7b' :: (.word "GRAPH" :: (graph.tokens ++
    .mark '\x7b' :: (list.flatMap TriplePattern.tokens ++ [.mark '\x7d'])) ++ [.mark '\x7d'])

/-- The tokens of triples in a graph. -/
def dataTokens (graph : Term) (triples : List Triple) : List Token :=
  .word "DATA" :: blockTokens graph (triples.map Triple.asPattern)

def tokens : Update → List Token
  | .deleteData graph triples => .word "DELETE" :: dataTokens graph triples
  | .deleteWhere graph template source body =>
    .word "DELETE" :: (blockTokens graph template ++ .word "WHERE" :: blockTokens source body)
  | .insertData graph triples => .word "INSERT" :: dataTokens graph triples

/-- The tokens of updates with semicolons between them. -/
def requestTokens (updates : List Update) : List Token :=
  [Token.mark ';'].intercalate (updates.map tokens)

section
variable {graph : Term} {list : List TriplePattern} {triples : List Triple}

theorem spells_graphBlock (isGraph : IsGraph graph) (legal : ∀ p ∈ list, p.IsSparql) :
    sparql.Spells (Delta.graphBlock graph (templateText list 2)).toList (blockTokens graph list) := by
  have word : sparql.Spells "GRAPH".toList [.word "GRAPH"] := spells_word (by decide)
  have opening : sparql.Spells ['\x7b'] [.mark '\x7b'] := spells_mark (by decide)
  have closing : sparql.Spells ['\x7d'] [.mark '\x7d'] := spells_mark (by decide)
  have ends : sparql.Spells "  \x7d\n\x7d".toList [.mark '\x7d', .mark '\x7d'] :=
    ((closing.join closing (c := '\n') rfl).space rfl).space rfl
  have lines := Lexicon.spells_lines 2 (fun p member => (legal p member).spells_text) ends
  have block := isGraph.2.spells_text.join (opening.join lines (c := '\n') rfl) (c := ' ') rfl
  have named := ((word.join block (c := ' ') rfl).space (c := ' ') rfl).space (c := ' ') rfl
  have whole := opening.join named (c := '\n') rfl
  simpa [Delta.graphBlock, templateText, blockTokens] using whole

theorem spells_data (isGraph : IsGraph graph) (legal : ∀ t ∈ triples, t.IsSparql) :
    sparql.Spells ("DATA " ++ Delta.graphBlock graph (Delta.tripleLines triples)).toList
      (dataTokens graph triples) := by
  have word : sparql.Spells "DATA".toList [.word "DATA"] := spells_word (by decide)
  have whole := word.join (spells_graphBlock isGraph (List.forall_mem_map.mpr legal)) (c := ' ') rfl
  simpa [Delta.tripleLines_eq, dataTokens] using whole

end

/-- The statement of an update is read as its tokens. -/
theorem IsSparql.spells_text {update : Update} (legal : update.IsSparql) :
    sparql.Spells update.text.toList update.tokens := by
  have delete : sparql.Spells "DELETE".toList [.word "DELETE"] := spells_word (by decide)
  match update, legal with
  | .deleteData graph triples, ⟨isGraph, legal⟩ =>
    have whole := delete.join (spells_data isGraph fun t member => (legal t member).1) (c := ' ') rfl
    simpa [text, tokens] using whole
  | .deleteWhere graph template source body, ⟨isGraph, isSource, legal, legalBody⟩ =>
    have word : sparql.Spells "WHERE".toList [.word "WHERE"] := spells_word (by decide)
    have body := word.join (spells_graphBlock isSource legalBody) (c := ' ') rfl
    have template := spells_graphBlock isGraph fun p member => (legal p member).1
    have whole := delete.join (template.join body (c := '\n') rfl) (c := ' ') rfl
    simpa [text, tokens] using whole
  | .insertData graph triples, ⟨isGraph, legal⟩ =>
    have insert : sparql.Spells "INSERT".toList [.word "INSERT"] := spells_word (by decide)
    have whole := insert.join (spells_data isGraph legal) (c := ' ') rfl
    simpa [text, tokens] using whole

/-- The statements of updates are read as their tokens, with a semicolon after each but the last. -/
theorem spells_request {updates : List Update} (legal : ∀ u ∈ updates, u.IsSparql) :
    sparql.Spells (" ;\n".intercalate (updates.map text)).toList (requestTokens updates) := by
  induction updates with
  | nil => exact Lexicon.spells_nil
  | cons first rest ih =>
    obtain ⟨here, later⟩ := List.forall_mem_cons.mp legal
    cases rest with
    | nil => simpa [requestTokens] using here.spells_text
    | cons next rest =>
      have semicolon : sparql.Spells [';'] [.mark ';'] := spells_mark (by decide)
      have whole := here.spells_text.join (semicolon.join (ih later) (c := '\n') rfl) (c := ' ') rfl
      simpa [requestTokens, String.toList_intercalate, List.intercalate_cons_cons] using whole

/-! ### Reading -/

variable {fuel : Nat} {graph : Term} {list : List TriplePattern} {triples : List Triple}

theorem length_blockTokens (graph : Term) (list : List TriplePattern) :
    (list.flatMap TriplePattern.tokens).length ≤ (blockTokens graph list).length := by
  simp only [blockTokens, List.length_cons, List.length_append]
  omega

theorem graphBlock?_tokens (rest : List Token) (isGraph : IsGraph graph) (legal : ∀ p ∈ list, p.IsSparql)
    (enough : (blockTokens graph list).length ≤ fuel) :
    graphBlock? fuel (blockTokens graph list ++ rest) = some ((graph, list), rest) := by
  obtain ⟨value, rfl⟩ := Term.exists_iri_of_isIri isGraph.1
  have fewer := length_le_flatMap_tokens list
  have shorter := length_blockTokens (.iri value) list
  have inner := braced?_patterns (.mark '\x7d' :: rest) legal (show list.length ≤ fuel by omega)
  rw [blockTokens, List.cons_append, List.append_assoc, List.singleton_append, graphBlock?]
  refine braced?_eq ?_
  simp [expect?, inner]

theorem mapM_triple? : triples.mapM (triple? ∘ Triple.asPattern) = some triples := by
  induction triples with
  | nil => rfl
  | cons t rest ih => simp [ih, triple?, Triple.asPattern]

theorem data?_tokens (rest : List Token) (isGraph : IsGraph graph) (legal : ∀ t ∈ triples, t.IsSparql)
    (enough : (dataTokens graph triples).length ≤ fuel) :
    data? fuel (blockTokens graph (triples.map Triple.asPattern) ++ rest) =
      some ((graph, triples), rest) := by
  rw [dataTokens, List.length_cons] at enough
  have block := graphBlock?_tokens rest isGraph (List.forall_mem_map.mpr legal)
    (show _ ≤ fuel by omega)
  rw [data?, block]
  simp [mapM_triple?]

/-- An update is read from its tokens. -/
theorem update?_tokens (rest : List Token) {update : Update} (legal : update.IsSparql)
    (enough : update.tokens.length ≤ fuel) :
    update? fuel (update.tokens ++ rest) = some (update, rest) := by
  match update, legal with
  | .deleteData graph triples, ⟨isGraph, legal⟩ =>
    rw [tokens, List.length_cons] at enough
    have ground : ∀ t ∈ triples, t.hasBlank = false := fun t member => (legal t member).2
    have read := data?_tokens rest isGraph (fun t member => (legal t member).1)
      (show _ ≤ fuel by omega)
    simpa [tokens, dataTokens, update?, read] using ground
  | .deleteWhere graph template source body, ⟨isGraph, isSource, legal, legalBody⟩ =>
    simp only [tokens, List.length_cons, List.length_append] at enough
    have ground : ∀ p ∈ template, hasBlank p = false := fun p member => (legal p member).2
    have first := graphBlock?_tokens (.word "WHERE" :: (blockTokens source body ++ rest)) isGraph
      (fun p member => (legal p member).1) (show _ ≤ fuel by omega)
    have second := graphBlock?_tokens rest isSource legalBody (show _ ≤ fuel by omega)
    -- A block starts with its brace, so that it is not read as data.
    have opened : update? fuel ((deleteWhere graph template source body).tokens ++ rest) = deleteWhere?
        fuel (blockTokens graph template ++ .word "WHERE" :: blockTokens source body ++ rest) := rfl
    rw [opened, List.append_assoc, List.cons_append, deleteWhere?, first]
    simpa [expect?, second] using ground
  | .insertData graph triples, ⟨isGraph, legal⟩ =>
    rw [tokens, List.length_cons] at enough
    have read := data?_tokens rest isGraph legal (show _ ≤ fuel by omega)
    simp [tokens, dataTokens, update?, read]

/-- Updates are read from their tokens, each up to its semicolon. -/
theorem updates?_tokens {updates : List Update} (legal : ∀ u ∈ updates, u.IsSparql)
    (enough : (requestTokens updates).length + 1 ≤ fuel) :
    updates? fuel (requestTokens updates) = some (updates, []) := by
  induction updates generalizing fuel with
  | nil =>
    obtain ⟨fuel, rfl⟩ := Nat.exists_eq_add_of_le' (show 1 ≤ fuel by omega)
    rfl
  | cons first rest ih =>
    obtain ⟨here, later⟩ := List.forall_mem_cons.mp legal
    obtain ⟨fuel, rfl⟩ := Nat.exists_eq_add_of_le' (show 1 ≤ fuel by omega)
    have occupied : ∀ more, (first.tokens ++ more).isEmpty = false := fun more => by
      cases first <;> rfl
    cases rest with
    | nil =>
      simp only [requestTokens, List.map_cons, List.map_nil, List.intercalate_singleton] at enough ⊢
      have read := update?_tokens [] here (show _ ≤ fuel by omega)
      have occupied := occupied []
      rw [List.append_nil] at read occupied
      rw [updates?, occupied, read]
      rfl
    | cons next rest =>
      have whole : requestTokens (first :: next :: rest) =
          first.tokens ++ .mark ';' :: requestTokens (next :: rest) := by
        simp [requestTokens, List.intercalate_cons_cons]
      rw [whole, List.length_append, List.length_cons] at enough
      have read := update?_tokens (.mark ';' :: requestTokens (next :: rest)) here
        (show _ ≤ fuel by omega)
      rw [whole, updates?, occupied, read]
      simp [ih later (show _ ≤ fuel by omega)]

end Grammar.Sparql.Update

open Grammar.Sparql

/-- A request is read as the updates that it was written for. -/
theorem Grammar.readUpdates?_text {updates : List Update} (legal : ∀ u ∈ updates, u.IsSparql) :
    readUpdates? (" ;\n".intercalate (updates.map Update.text)).toList = some updates :=
  readWhole?_eq (Update.spells_request legal) (Update.updates?_tokens legal (Nat.le_succ _))

/-! ## Deltas -/

/-- The graph that an update changes. -/
def Grammar.Sparql.Update.graph : Update → Term
  | .deleteData graph _ | .deleteWhere graph _ _ _ | .insertData graph _ => graph

/-- The triples that an update deletes by name. -/
def Grammar.Sparql.Update.deleted : Update → List Triple
  | .deleteData _ triples => triples
  | _ => []

/-- The triples that an update adds. -/
def Grammar.Sparql.Update.inserted : Update → List Triple
  | .insertData _ triples => triples
  | _ => []

namespace Delta

variable {d e : Delta} {target target' : Term} {t : Triple}

/-- All terms of the delta may stand in SPARQL. -/
def IsSparql (d : Delta) : Prop := ∀ t ∈ d.removed.toList ++ d.added.toList, t.IsSparql

instance (d : Delta) : Decidable d.IsSparql :=
  inferInstanceAs (Decidable (∀ t ∈ d.removed.toList ++ d.added.toList, t.IsSparql))

/-! ### Patterns for blank nodes -/

/-- Whatever its label is, a blank node has the name of a variable. -/
theorem isSparql_blankVariable (label : String) : (blankVariable label).IsSparql := by
  refine isVariable_of_ascii (List.all_eq_true.mpr fun c member => ?_)
  simp only [blankVariable, String.toList_append, String.toList_ofList, List.mem_append,
    List.mem_map] at member
  rcases member with member | ⟨c, -, rfl⟩
  · exact List.all_eq_true.mp (by decide : "b_".toList.all fun c => c.isAlphanum || c == '_') c member
  · unfold variableChar
    split
    · assumption
    · rfl

theorem isSparql_slotOf {term : Term} (legal : term.IsSparql) : (slotOf term).IsSparql := by
  match term, legal with
  | .iri _, legal => exact legal
  | .blank label, _ => exact isSparql_blankVariable label
  | .literal _, legal => exact legal

theorem isSparql_patternOf (legal : t.IsSparql) : (patternOf t).IsSparql :=
  ⟨isSparql_slotOf legal.subject, legal.verb, isSparql_slotOf legal.object⟩

theorem hasBlank_patternOf : hasBlank (patternOf t) = false := by
  obtain ⟨subject, predicate, object⟩ := t
  cases subject <;> cases object <;> rfl

/-! ### Statements -/

/-- What the update of a graph consists of, each part only if it does something. -/
def updates (d : Delta) (target : Term) : List Update :=
  (if d.groundRemovals = [] then [] else [.deleteData target d.groundRemovals]) ++
  (if d.patterns = [] then [] else [.deleteWhere target d.patterns target d.patterns]) ++
  (if d.added.toList = [] then [] else [.insertData target d.added.toList])

theorem statements_eq (d : Delta) (target : Term) :
    d.statements target = (d.updates target).map Update.text := by
  simp only [statements, updates, SortedSet.isEmpty, List.isEmpty_iff, List.map_append,
    apply_ite (List.map Update.text), List.map_nil, List.map_cons, Update.text]

theorem isSparql_updates (legal : d.IsSparql) (isGraph : Update.IsGraph target) :
    ∀ u ∈ d.updates target, u.IsSparql := by
  obtain ⟨removed, added⟩ := List.forall_mem_append.mp legal
  have ground : ∀ t ∈ d.groundRemovals, t.IsSparql ∧ t.hasBlank = false := fun t member =>
    ⟨removed t (mem_groundRemovals.mp member).1, (mem_groundRemovals.mp member).2⟩
  have patterns : ∀ p ∈ d.patterns, p.IsSparql ∧ hasBlank p = false := by
    refine List.forall_mem_map.mpr fun t member => ⟨isSparql_patternOf ?_, hasBlank_patternOf⟩
    exact removed t (mem_blankRemovals.mp member).1
  have each : ∀ (empty : Prop) [Decidable empty] (u : Update), u.IsSparql →
      ∀ v ∈ (if empty then [] else [u]), v.IsSparql := by
    intro empty _ u legal v member
    split at member
    · cases member
    · exact List.mem_singleton.mp member ▸ legal
  refine List.forall_mem_append.mpr ⟨List.forall_mem_append.mpr ⟨each _ _ ?_, each _ _ ?_⟩, each _ _ ?_⟩
  · exact ⟨isGraph, ground⟩
  · exact ⟨isGraph, isGraph, patterns, fun p member => (patterns p member).1⟩
  · exact ⟨isGraph, added⟩

theorem readUpdates?_updateText (legal : d.IsSparql) (isGraph : Update.IsGraph target) :
    readUpdates? (d.updateText target).toList = some (d.updates target) := by
  rw [updateText, statements_eq]
  exact readUpdates?_text (isSparql_updates legal isGraph)

/-! ### What the statements hold -/

theorem graph_of_mem_updates {u : Update} (member : u ∈ d.updates target) : u.graph = target := by
  simp only [updates, List.mem_append, List.mem_ite_nil_left, List.mem_singleton] at member
  rcases member with (⟨-, rfl⟩ | ⟨-, rfl⟩) | ⟨-, rfl⟩ <;> rfl

theorem flatMap_deleted_updates : (d.updates target).flatMap Update.deleted = d.groundRemovals := by
  unfold updates
  split_ifs <;> simp_all [Update.deleted]

theorem flatMap_inserted_updates : (d.updates target).flatMap Update.inserted = d.added.toList := by
  unfold updates
  split_ifs <;> simp_all [Update.inserted]

/-- Every removed triple is in one of the two lists. -/
theorem removed_eq_nil_iff : d.removed.toList = [] ↔ d.groundRemovals = [] ∧ d.patterns = [] := by
  rw [patterns, List.map_eq_nil_iff, groundRemovals, blankRemovals, List.filter_eq_nil_iff,
    List.filter_eq_nil_iff, List.eq_nil_iff_forall_not_mem]
  refine ⟨fun none => ⟨fun t member => absurd member (none t), fun t member => absurd member (none t)⟩,
    ?_⟩
  rintro ⟨noGround, noBlank⟩ t member
  cases blank : t.hasBlank with
  | false => exact noGround t member (by simp [blank])
  | true => exact noBlank t member blank

theorem updates_eq_nil_iff : d.updates target = [] ↔ d.isEmpty := by
  simp only [updates, List.append_eq_nil_iff, ite_eq_left_iff, List.cons_ne_nil, imp_false, not_not,
    isEmpty, SortedSet.isEmpty, Bool.and_eq_true, List.isEmpty_iff, removed_eq_nil_iff]

/-- Without blank nodes, all that is removed is removed by name. -/
theorem groundRemovals_eq (ground : ∀ t ∈ d.removed, t.hasBlank = false) :
    d.groundRemovals = d.removed.toList :=
  List.filter_eq_self.mpr fun t member => by simp [ground t member]

/-- The text of an update is read as its statements: at most one that deletes the removed triples
without blank nodes, then at most one that deletes, wherever they hold, the patterns of the other
removed triples, then at most one that adds the added triples, each of them in the target graph and
missing only where it would hold nothing. Among deltas that remove no blank nodes the text tells which
delta it is of, and of which graph unless the delta is empty. The texts of literals are arbitrary. -/
theorem updateText_faithful (legal : d.IsSparql) (legal' : e.IsSparql) (isGraph : Update.IsGraph target)
    (isGraph' : Update.IsGraph target') :
    readUpdates? (d.updateText target).toList = some (d.updates target) ∧
    (∀ t, t ∈ d.groundRemovals ↔ t ∈ d.removed ∧ t.hasBlank = false) ∧
    (∀ p, p ∈ d.patterns ↔ ∃ t ∈ d.removed, t.hasBlank ∧ patternOf t = p) ∧
    (d.updateText target = "" ↔ d.isEmpty) ∧
    ((∀ t ∈ d.removed, t.hasBlank = false) → (∀ t ∈ e.removed, t.hasBlank = false) →
      d.updateText target = e.updateText target' → d = e ∧ (d.isEmpty ∨ target = target')) := by
  have read := readUpdates?_updateText legal isGraph
  refine ⟨read, fun t => mem_groundRemovals, fun p => ?_, ⟨fun empty => ?_, fun empty => ?_⟩,
    fun ground ground' same => ?_⟩
  · simp only [patterns, List.mem_map, mem_blankRemovals, and_assoc]
  · rw [empty] at read
    have nothing := readUpdates?_text (List.forall_mem_nil Update.IsSparql)
    exact updates_eq_nil_iff.mp (Option.some.inj (read.symm.trans nothing))
  · rw [updateText, statements_eq, updates_eq_nil_iff.mpr empty]
    rfl
  · rw [same, readUpdates?_updateText legal' isGraph'] at read
    have updates : e.updates target' = d.updates target := Option.some.inj read
    have removed := congrArg (List.flatMap Update.deleted) updates
    have added := congrArg (List.flatMap Update.inserted) updates
    rw [flatMap_deleted_updates, flatMap_deleted_updates, groundRemovals_eq ground',
      groundRemovals_eq ground] at removed
    rw [flatMap_inserted_updates, flatMap_inserted_updates] at added
    refine ⟨?_, ?_⟩
    · obtain ⟨dRemoved, dAdded⟩ := d
      obtain ⟨eRemoved, eAdded⟩ := e
      rw [mk.injEq]
      exact ⟨SortedSet.ext_mem fun t => by rw [← SortedSet.mem_toList, ← removed]; rfl,
        SortedSet.ext_mem fun t => by rw [← SortedSet.mem_toList, ← added]; rfl⟩
    · cases listed : d.updates target with
      | nil => exact .inl (updates_eq_nil_iff.mp listed)
      | cons u rest =>
        have member : u ∈ d.updates target := listed ▸ List.mem_cons_self
        exact .inr ((graph_of_mem_updates member).symm.trans (graph_of_mem_updates (updates ▸ member)))

/-- A literal that looks like the end of its block and the start of another statement. -/
def smuggled : Triple :=
  ⟨.iri "http://ex.org/s", .iri "urn:p",
    .plain "\" .\n  \x7d\n\x7d ;\nINSERT DATA \x7b\n  GRAPH <urn:g> \x7b\n"⟩

/-- The triple is removed beside one with a blank node, and a blank node comes in. -/
def mixed : Delta where
  removed := .ofList [smuggled, ⟨.blank "old_a-b", .iri "urn:p", .literal (.lang "\\u007d" "en-GB")⟩]
  added := .ofList [⟨.blank "new_a.b", .iri "urn:p", .literal (.typed "1 ;" Xsd.integer)⟩]

/-- The three statements of a delta are read as such. Where the same literal is removed and where it
is added, the texts are not the same. -/
theorem updateText_faithful_smuggled :
    let target : Term := .iri "urn:g"
    let found : TriplePattern :=
      ⟨.var ⟨"b_old_a_b"⟩, .term (.iri "urn:p"), .term (.literal (.lang "\\u007d" "en-GB"))⟩
    let removal : Delta := ⟨.ofList [smuggled], ∅⟩
    let addition : Delta := ⟨∅, .ofList [smuggled]⟩
    mixed.IsSparql ∧ removal.IsSparql ∧ addition.IsSparql ∧ Update.IsGraph target ∧
    readUpdates? (mixed.updateText target).toList = some [.deleteData target [smuggled],
      .deleteWhere target [found] target [found], .insertData target mixed.added.toList] ∧
    mixed.updateText target ≠ "" ∧ removal.updateText target ≠ addition.updateText target := by
  intro target found removal addition
  have legal : mixed.IsSparql := by decide
  have legalRemoval : removal.IsSparql := by decide
  have legalAddition : addition.IsSparql := by decide
  have isGraph : Update.IsGraph target := ⟨rfl, by decide⟩
  obtain ⟨read, -, -, empty, -⟩ := updateText_faithful legal legal isGraph isGraph
  obtain ⟨-, -, -, -, apart⟩ := updateText_faithful legalRemoval legalAddition isGraph isGraph
  refine ⟨legal, legalRemoval, legalAddition, isGraph, read.trans rfl, ?_, fun same => ?_⟩
  · rw [ne_eq, empty]
    decide
  · have equal := (apart (by decide) (by decide) same).1
    exact absurd equal (by decide)

end Delta
end Formulary
