import Formulary.Proofs.SparqlTokens

/-!
# SPARQL texts read back

What the grammar of SPARQL makes of the tokens of patterns, groups and queries: the pattern, group or
query that was written, whatever the texts of its literals are and however deep its groups are nested
(`Grammar.rendering_lossless`).
-/

namespace Formulary
open Grammar Document

namespace Grammar.Sparql

variable {rest : List Token}

/-! ## Slots and verbs -/

/-- Whether tokens neither belong to a literal before them nor repeat a verb before them. -/
def follows : List Token → Bool
  | .sign _ :: _ => false
  | .datatype :: _ => false
  | .mark '+' :: _ => false
  | _ => true

theorem follows_slot (s : Slot) : follows (s.tokens ++ rest) := by
  match s with
  | .var _ => rfl
  | .term (.iri _) => rfl
  | .term (.blank _) => rfl
  | .term (.literal _) => rfl

theorem follows_verb (v : Verb) : follows (v.tokens ++ rest) := by
  match v with
  | .var v => exact follows_slot (.var v)
  | .term t => exact follows_slot (.term t)
  | .oneOrMore t =>
    rw [Verb.tokens, List.append_assoc]
    exact follows_slot (.term t)

/-- A variable or term is read from its tokens. -/
theorem slot?_tokens {s : Slot} (legal : s.IsSparql) (apart : follows rest) :
    slot? (s.tokens ++ rest) = some (s, rest) := by
  match s, legal with
  | .var ⟨name⟩, _ => simp [Slot.tokens, slot?]
  | .term (.iri value), _ => simp [Slot.tokens, slot?]
  | .term (.blank label), _ => simp [Slot.tokens, slot?]
  | .term (.literal ⟨lexical, none, none⟩), _ =>
    -- What follows may not be taken for a tag or a datatype.
    have alone : slot? (.string lexical.toList :: rest) =
        some (.term (.plain (String.ofList lexical.toList)), rest) := by
      unfold slot?
      split
      · next same => cases same
      · next same => cases same
      · next same => cases same
      · next same =>
        cases same
        cases apart
      · next same =>
        cases same
        cases apart
      · next same =>
        cases same
        rfl
      · next none => exact absurd rfl (none _ _)
    simpa [Slot.tokens, Term.plain] using alone
  | .term (.literal ⟨lexical, some datatype, none⟩), legal =>
    obtain ⟨-, noString, noTagged⟩ := legal.datatype datatype rfl
    simp [Slot.tokens, slot?, typedLiteral, Literal.typed, noString, noTagged]
  | .term (.literal ⟨lexical, none, some tag⟩), legal =>
    have isTag := legal.language tag rfl
    simp [Slot.tokens, slot?, isTag, Literal.lang]
  | .term (.literal ⟨_, some _, some _⟩), legal => exact absurd legal.single (by simp)

/-- A verb is read from its tokens. -/
theorem verb?_tokens {v : Verb} (legal : v.IsSparql) (apart : follows rest) :
    verb? (v.tokens ++ rest) = some (v, rest) := by
  -- A single variable or term is read as such unless a sign for repetition follows.
  have single : ∀ s : Slot, s.IsSparql → verb? (s.tokens ++ rest) = some (verbOf s, rest) := by
    intro s legal
    have read := slot?_tokens legal apart
    unfold verb?
    split
    · next value more same =>
      exfalso
      match s, same with
      | .term (.iri _), same =>
        obtain rfl : rest = .mark '+' :: more := (List.cons.inj same).2
        cases apart
      | .term (.literal ⟨_, none, none⟩), same => cases (List.cons.inj same).1
      | .term (.literal ⟨_, none, some _⟩), same => cases (List.cons.inj same).1
      | .term (.literal ⟨_, some _, none⟩), same => cases (List.cons.inj same).1
      | .term (.literal ⟨_, some _, some _⟩), same => cases (List.cons.inj same).1
    · rw [read]
      rfl
  match v, legal with
  | .var v, legal => exact single (.var v) legal
  | .term t, legal => exact single (.term t) legal
  | .oneOrMore t, ⟨isIri, _⟩ =>
    obtain ⟨value, rfl⟩ := Term.exists_iri_of_isIri isIri
    simp [Verb.tokens, verb?]

/-! ## Patterns -/

theorem pattern?_tokens {p : TriplePattern} (legal : p.IsSparql) :
    pattern? (p.tokens ++ rest) = some (p, rest) := by
  have stop : follows (.mark '.' :: rest) := rfl
  rw [TriplePattern.tokens, List.append_assoc, List.append_assoc, List.append_assoc,
    List.singleton_append, pattern?, slot?_tokens legal.subject (follows_verb _)]
  simp [verb?_tokens legal.verb (follows_slot _), slot?_tokens legal.object stop, expect?]

/-- Every pattern has a token. -/
theorem length_le_flatMap_tokens (list : List TriplePattern) :
    list.length ≤ (list.flatMap TriplePattern.tokens).length := by
  induction list with
  | nil => exact Nat.le_refl 0
  | cons p list ih =>
    simp only [List.flatMap_cons, List.length_append, List.length_cons, TriplePattern.tokens]
    omega

/-- Patterns are read up to where no other one starts. -/
theorem patterns_tokens {list : List TriplePattern} (legal : ∀ p ∈ list, p.IsSparql) {fuel : Nat}
    (enough : list.length ≤ fuel) (ended : pattern? rest = none) :
    patterns fuel (list.flatMap TriplePattern.tokens ++ rest) = (list, rest) := by
  induction list generalizing fuel with
  | nil =>
    cases fuel with
    | zero => rfl
    | succ fuel => simp [patterns, ended]
  | cons p list ih =>
    obtain ⟨here, later⟩ := List.forall_mem_cons.mp legal
    rw [List.length_cons] at enough
    obtain ⟨fuel, rfl⟩ := Nat.exists_eq_add_of_le' (show 1 ≤ fuel by omega)
    have others := ih later (show list.length ≤ fuel by omega)
    rw [List.flatMap_cons, List.append_assoc, patterns, pattern?_tokens here]
    simp [others]

/-! ## Groups -/

/-- Nothing follows but the end, or a closing brace. -/
def Closed (rest : List Token) : Prop := rest = [] ∨ ∃ more, rest = .mark '\x7d' :: more

theorem closed_brace (rest : List Token) : Closed (.mark '\x7d' :: rest) := .inr ⟨rest, rfl⟩

theorem Closed.pattern?_eq (closed : Closed rest) : pattern? rest = none := by
  rcases closed with rfl | ⟨more, rfl⟩ <;> rfl

theorem Closed.expect?_optional (closed : Closed rest) : expect? (.word "OPTIONAL") rest = none := by
  rcases closed with rfl | ⟨more, rfl⟩ <;> rfl

theorem pattern?_optional : pattern? (.word "OPTIONAL" :: rest) = none := by
  simp [pattern?, slot?]

/-- No pattern starts where optional groups or the end of the group around them follow. -/
theorem pattern?_optionalTokens (groups : List Group) (closed : Closed rest) :
    pattern? (Group.optionalTokens TriplePattern.tokens groups ++ rest) = none := by
  cases groups with
  | nil => exact closed.pattern?_eq
  | cons group groups =>
    rw [Group.optionalTokens]
    exact pattern?_optional

/-- What is in braces is read where its production stops at the closing one. -/
theorem braced?_eq {α : Type} {read : List Token → Option (α × List Token)} {value : α}
    {tokens : List Token}
    (made : read (tokens ++ .mark '\x7d' :: rest) = some (value, .mark '\x7d' :: rest)) :
    braced? read (.mark '\x7b' :: (tokens ++ .mark '\x7d' :: rest)) = some (value, rest) := by
  simp [braced?, expect?, made]

mutual

/-- A group is read from its tokens. -/
theorem group?_tokens : ∀ (group : Group) {rest : List Token} {fuel : Nat}, group.IsSparql →
    Closed rest → (group.tokens TriplePattern.tokens).length + 2 ≤ fuel →
    group? fuel (group.tokens TriplePattern.tokens ++ rest) = some (group, rest)
  | ⟨required, optionals⟩, rest, fuel, legal, closed, enough => by
    rw [Group.IsSparql, Group.allPatterns, List.forall_mem_append] at legal
    rw [Group.tokens, List.length_append] at enough
    have fewer := length_le_flatMap_tokens required
    obtain ⟨fuel, rfl⟩ := Nat.exists_eq_add_of_le' (show 1 ≤ fuel by omega)
    have found := patterns_tokens legal.1 (show required.length ≤ fuel by omega)
      (pattern?_optionalTokens optionals closed)
    have later := optionals?_tokens optionals legal.2 closed (show _ ≤ fuel by omega)
    rw [Group.tokens, List.append_assoc, group?, found]
    simp [later]

theorem optionals?_tokens : ∀ (groups : List Group) {rest : List Token} {fuel : Nat},
    (∀ p ∈ Group.patternsOf groups, p.IsSparql) → Closed rest →
    (Group.optionalTokens TriplePattern.tokens groups).length + 1 ≤ fuel →
    optionals? fuel (Group.optionalTokens TriplePattern.tokens groups ++ rest) = some (groups, rest)
  | [], rest, fuel, _, closed, enough => by
    obtain ⟨fuel, rfl⟩ := Nat.exists_eq_add_of_le' (show 1 ≤ fuel by omega)
    rw [Group.optionalTokens, List.nil_append, optionals?, closed.expect?_optional]
  | group :: groups, rest, fuel, legal, closed, enough => by
    rw [Group.patternsOf, List.forall_mem_append] at legal
    rw [Group.optionalTokens] at enough
    simp only [List.length_cons, List.length_append] at enough
    obtain ⟨fuel, rfl⟩ := Nat.exists_eq_add_of_le' (show 1 ≤ fuel by omega)
    have inner := group?_tokens group legal.1
      (closed_brace (Group.optionalTokens TriplePattern.tokens groups ++ rest))
      (show _ ≤ fuel by omega)
    have later := optionals?_tokens groups legal.2 closed (show _ ≤ fuel by omega)
    simp only [Group.optionalTokens, List.cons_append, List.append_assoc, optionals?, expect?, if_true]
    rw [braced?_eq inner]
    simp [later]

end

/-- A group in braces is read from its tokens. -/
theorem braced?_blockTokens (rest : List Token) {group : Group} (legal : group.IsSparql) {fuel : Nat}
    (enough : (group.blockTokens TriplePattern.tokens).length ≤ fuel) :
    braced? (group? fuel) (group.blockTokens TriplePattern.tokens ++ rest) = some (group, rest) := by
  simp only [Group.blockTokens, List.length_cons, List.length_append, List.length_nil] at enough
  have inner := group?_tokens group legal (closed_brace rest) (show _ ≤ fuel by omega)
  rw [Group.blockTokens, List.cons_append, List.append_assoc, List.singleton_append]
  exact braced?_eq inner

/-- Patterns in braces are read from their tokens. -/
theorem braced?_patterns (rest : List Token) {list : List TriplePattern}
    (legal : ∀ p ∈ list, p.IsSparql) {fuel : Nat} (enough : list.length ≤ fuel) :
    braced? (some <| patterns fuel ·)
      (.mark '\x7b' :: (list.flatMap TriplePattern.tokens ++ .mark '\x7d' :: rest)) =
        some (list, rest) :=
  braced?_eq (congrArg some (patterns_tokens legal enough (closed_brace rest).pattern?_eq))

/-! ## Queries -/

theorem mode?_tokens {deletes : Bool} :
    mode? (.word (if deletes then "DELETE" else "CONSTRUCT") :: rest) = some (deletes, rest) := by
  cases deletes <;> rfl

/-- A query is read from its tokens. -/
theorem query?_tokens {q : InstanceQuery} (legal : q.IsSparql) {fuel : Nat}
    (enough : (q.tokens TriplePattern.tokens).length ≤ fuel) :
    query? fuel (q.tokens TriplePattern.tokens) = some (q, []) := by
  obtain ⟨template, body⟩ := List.forall_mem_append.mp legal
  have fewer := length_le_flatMap_tokens q.template
  simp only [InstanceQuery.tokens, List.length_cons, List.length_append] at enough
  have head := braced?_patterns (.word "WHERE" :: q.body.blockTokens TriplePattern.tokens) template
    (show _ ≤ fuel by omega)
  have tail := braced?_blockTokens [] body (show _ ≤ fuel by omega)
  rw [List.append_nil] at tail
  rw [InstanceQuery.tokens, query?, mode?_tokens]
  simp [head, expect?, tail]

end Grammar.Sparql

/-! ## Texts -/

namespace Grammar

/-- A text is read as what its production makes of its tokens. -/
theorem readWhole?_eq {α : Type} {read : Nat → List Token → Option (α × List Token)} {value : α}
    {text : List Char} {tokens : List Token} (spells : sparql.Spells text tokens)
    (made : read (tokens.length + 2) tokens = some (value, [])) : readWhole? read text = some value := by
  have found : sparql.tokens? text = some tokens := by
    simpa using spells [] nofun
  simp [readWhole?, found, made]

open Sparql

variable {group : Group} {q : InstanceQuery}

theorem readBody?_body (legal : group.IsSparql) (depth : Nat) :
    readBody? (group.body depth).toList = some group := by
  have spells := Group.spells_body group depth (fun p member => (legal p member).spells_text)
    Lexicon.spells_nil
  rw [List.append_nil, List.append_nil] at spells
  have read := group?_tokens group legal (.inl rfl) (Nat.le_refl _)
  rw [List.append_nil] at read
  exact readWhole?_eq spells read

theorem readGroup?_text (legal : group.IsSparql) : readGroup? group.text.toList = some group := by
  have read := braced?_blockTokens [] legal (Nat.le_add_right _ 2)
  rw [List.append_nil] at read
  exact readWhole?_eq (Group.spells_text fun p member => (legal p member).spells_text) read

theorem readQuery?_text (legal : q.IsSparql) : readQuery? q.text.toList = some q :=
  readWhole?_eq (InstanceQuery.spells_text fun p member => (legal p member).spells_text)
    (query?_tokens legal (Nat.le_add_right _ 2))

/-- Texts of what may stand in SPARQL are read back: a group from its text in braces and from its
lines at any depth, a query with its mode, its template in order and its body. Groups and queries with
the same text are therefore the same. -/
theorem rendering_lossless {one two : Group} (legal : one.IsSparql) (legal' : two.IsSparql)
    {p q : InstanceQuery} (legalP : p.IsSparql) (legalQ : q.IsSparql) :
    readGroup? one.text.toList = some one ∧
    (∀ depth, readBody? (one.body depth).toList = some one) ∧
    readQuery? p.text.toList = some p ∧
    (one.text = two.text → one = two) ∧
    (∀ depth depth', one.body depth = two.body depth' → one = two) ∧
    (p.text = q.text → p = q) := by
  refine ⟨readGroup?_text legal, readBody?_body legal, readQuery?_text legalP, fun same => ?_,
    fun depth depth' same => ?_, fun same => ?_⟩
  · have read := readGroup?_text legal
    rw [same, readGroup?_text legal'] at read
    exact (Option.some.inj read).symm
  · have read := readBody?_body legal depth
    rw [same, readBody?_body legal'] at read
    exact (Option.some.inj read).symm
  · have read := readQuery?_text legalP
    rw [same, readQuery?_text legalQ] at read
    exact (Option.some.inj read).symm

/-- Literals that look like the end of a group or of a pattern, an empty optional group, and one that
holds nothing but another. -/
def tangled : Group where
  patterns := [⟨.var ⟨"s"⟩, .oneOrMore (.iri "http://ex.org/next"),
    .term (.literal (.lang "\" .\n\x7d\nOPTIONAL \x7b" "en-GB"))⟩]
  optionals := [{}, { optionals := [{
    patterns := [⟨.term (.blank "b.1"), .var ⟨"_2"⟩, .term (.literal (.typed "\\u0041" Xsd.integer))⟩]
    optionals := [{ patterns := [⟨.var ⟨"s"⟩, .term (.iri "#p"), .term (.plain "\t\x7d")⟩] }] }] }]

/-- The query with a template in another order than its body. -/
def tangledQuery (deletes : Bool) : InstanceQuery :=
  { deletes, template := tangled.allPatterns.reverse, body := tangled }

/-- A group is told from the empty group by its text, and a deletion from an extraction. -/
theorem rendering_lossless_tangled :
    tangled.IsSparql ∧ Group.IsSparql {} ∧ (tangledQuery true).IsSparql ∧ (tangledQuery false).IsSparql ∧
    readGroup? tangled.text.toList = some tangled ∧
    (∀ depth, readBody? (tangled.body depth).toList = some tangled) ∧
    readQuery? (tangledQuery true).text.toList = some (tangledQuery true) ∧
    tangled.text ≠ Group.text {} ∧ (tangledQuery true).text ≠ (tangledQuery false).text := by
  have legal : tangled.IsSparql := by decide
  have empty : Group.IsSparql {} := by decide
  have deletion : (tangledQuery true).IsSparql := by decide
  have extraction : (tangledQuery false).IsSparql := by decide
  obtain ⟨group, body, query, inGroups, -, inQueries⟩ :=
    rendering_lossless legal empty deletion extraction
  refine ⟨legal, empty, deletion, extraction, group, body, query, fun same => ?_, fun same => ?_⟩
  · exact absurd (congrArg Group.patterns (inGroups same)) (by decide)
  · exact absurd (congrArg InstanceQuery.deletes (inQueries same)) (by decide)

end Grammar
end Formulary
