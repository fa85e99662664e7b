import Formulary.Pattern.Sparql
import Formulary.Proofs.SparqlGrammar
import Formulary.Proofs.WrittenTerms

/-!
# The tokens of SPARQL texts

What may stand in SPARQL as it is written (`Term.IsSparql` and the same for slots, verbs and
patterns), and the tokens that the texts of terms, patterns, groups and queries are read as. Lines and
indentation leave no trace; braces and full stops have tokens of their own.
-/

namespace Formulary
open Grammar

/-! ## What may stand in SPARQL -/

/-- The literal has one of three forms: a language tag, a datatype other than that of plain literals
and tagged ones, or neither. Its text may be anything. -/
structure Literal.IsSparql (value : Literal) : Prop where
  single : value.language = none ∨ value.datatype = none
  datatype : ∀ iri ∈ value.datatype, iri.toList.all isReferenceChar ∧
    iri ≠ Xsd.string ∧ iri ≠ Rdf.langString
  language : ∀ tag ∈ value.language, isTag tag.toList

instance (value : Literal) : Decidable value.IsSparql :=
  decidable_of_iff (_ ∧ _ ∧ _) ⟨fun ⟨single, datatype, language⟩ => ⟨single, datatype, language⟩,
    fun legal => ⟨legal.single, legal.datatype, legal.language⟩⟩

/-- An IRI has only characters that may stand between angle brackets, a blank node a label of the
grammar. -/
def Term.IsSparql : Term → Prop
  | .iri value => value.toList.all isReferenceChar
  | .blank label => sparql.isLabel label.toList
  | .literal value => value.IsSparql

instance (t : Term) : Decidable t.IsSparql :=
  match t with
  | .iri value => inferInstanceAs (Decidable (value.toList.all isReferenceChar = true))
  | .blank label => inferInstanceAs (Decidable (sparql.isLabel label.toList = true))
  | .literal value => inferInstanceAs (Decidable value.IsSparql)

def Variable.IsSparql (v : Variable) : Prop := isVariable v.name.toList

instance (v : Variable) : Decidable v.IsSparql :=
  inferInstanceAs (Decidable (isVariable v.name.toList = true))

def Slot.IsSparql : Slot → Prop
  | .var v => v.IsSparql
  | .term t => t.IsSparql

instance (s : Slot) : Decidable s.IsSparql :=
  match s with
  | .var v => inferInstanceAs (Decidable v.IsSparql)
  | .term t => inferInstanceAs (Decidable t.IsSparql)

/-- Only an IRI is followed one or more times. -/
def Verb.IsSparql : Verb → Prop
  | .var v => v.IsSparql
  | .term t => t.IsSparql
  | .oneOrMore t => t.isIri ∧ t.IsSparql

instance (v : Verb) : Decidable v.IsSparql :=
  match v with
  | .var v => inferInstanceAs (Decidable v.IsSparql)
  | .term t => inferInstanceAs (Decidable t.IsSparql)
  | .oneOrMore t => inferInstanceAs (Decidable (t.isIri ∧ t.IsSparql))

structure TriplePattern.IsSparql (p : TriplePattern) : Prop where
  subject : p.subject.IsSparql
  verb : p.verb.IsSparql
  object : p.object.IsSparql

instance (p : TriplePattern) : Decidable p.IsSparql :=
  decidable_of_iff (_ ∧ _ ∧ _) ⟨fun ⟨subject, verb, object⟩ => ⟨subject, verb, object⟩,
    fun legal => ⟨legal.subject, legal.verb, legal.object⟩⟩

/-- All patterns of the group and of the groups in it may stand in SPARQL. -/
def Group.IsSparql (group : Group) : Prop := ∀ p ∈ group.allPatterns, p.IsSparql

instance (group : Group) : Decidable group.IsSparql :=
  inferInstanceAs (Decidable (∀ p ∈ group.allPatterns, p.IsSparql))

/-- All patterns of the query may stand in SPARQL. -/
def InstanceQuery.IsSparql (q : InstanceQuery) : Prop :=
  ∀ p ∈ q.template ++ q.body.allPatterns, p.IsSparql

instance (q : InstanceQuery) : Decidable q.IsSparql :=
  inferInstanceAs (Decidable (∀ p ∈ q.template ++ q.body.allPatterns, p.IsSparql))

/-! ## Lines -/

namespace Grammar.Lexicon

variable {l : Lexicon} {more : List Char} {tokens others : List Token}

/-- A line is read as what stands on it. -/
theorem Spells.line {text : String} (spells : l.Spells text.toList tokens) (depth : Nat)
    (later : l.Spells more others) :
    l.Spells ((line depth text).toList ++ more) (tokens ++ others) := by
  have gap : (List.replicate (2 * depth) ' ').all isSpace := by simp [isSpace]
  have whole := (spells.join later (c := '\n') rfl).spaces gap
  simpa [Formulary.line, indent] using whole

/-- Lines are read one after the other. -/
theorem spells_lines {α : Type} {text : α → String} {each : α → List Token} {items : List α}
    (depth : Nat) (spells : ∀ a ∈ items, l.Spells (text a).toList (each a))
    (later : l.Spells more others) :
    l.Spells ((String.join (items.map fun a => Formulary.line depth (text a))).toList ++ more)
      (items.flatMap each ++ others) := by
  induction items with
  | nil => exact later
  | cons a rest ih =>
    obtain ⟨here, there⟩ := List.forall_mem_cons.mp spells
    have whole := here.line depth (ih there)
    simpa [String.toList_join] using whole

end Grammar.Lexicon

/-! ## Variables, marks and words -/

namespace Grammar

variable {c : Char} {rest : List Char}

theorem sparql_quotes : sparql.Quotes := fun text rest apart => by
  simp [Lexicon.token?, Lexicon.common?, sparql, string?_escaped apart]

theorem inVariable_eq_false (space : isSpace c) : inVariable c = false := by
  simp [inVariable, isNameRest_eq_false space]

/-- A name of ASCII letters, digits and underscores is the name of a variable. -/
theorem isVariable_of_ascii {name : List Char} (ascii : name.all fun c => c.isAlphanum || c == '_') :
    isVariable name := by
  have letter : ∀ c : Char, c.isAlphanum → isNameLetter c ∨ c.isDigit := fun c alphanum => by
    rcases Bool.or_eq_true_iff.mp alphanum with alpha | digit
    · exact .inl (isNameLetter_of_isAlpha alpha)
    · exact .inr digit
  have each : ∀ c ∈ name, startsVariable c ∧ inVariable c := fun c member => by
    have noHyphen : c ≠ '-' := by
      rintro rfl
      exact absurd (List.all_eq_true.mp ascii _ member) (by decide)
    rcases Bool.or_eq_true_iff.mp (List.all_eq_true.mp ascii c member) with alphanum | same
    · rcases letter c alphanum with here | here <;>
        simp [startsVariable, inVariable, isNameRest, here, noHyphen]
    · simp [startsVariable, inVariable, isNameRest, beq_iff_eq.mp same]
  refine Bool.and_eq_true_iff.mpr ⟨?_, List.all_eq_true.mpr fun c member => (each c member).2⟩
  cases name with
  | nil => rfl
  | cons c rest => exact (each c List.mem_cons_self).1

/-- A variable is taken as far as its name goes. -/
theorem spells_variable {name : List Char} (named : isVariable name) :
    sparql.Spells ('?' :: name) [.word (String.ofList ('?' :: name))] := by
  obtain ⟨starts, inside⟩ := Bool.and_eq_true_iff.mp named
  refine Lexicon.spells_token rfl (by decide) fun rest ends => ?_
  obtain ⟨taken, left⟩ := span_append inside ends fun c space => inVariable_eq_false space
  simp [Lexicon.token?, Lexicon.common?, sparql, takeVariable?, taken, left, starts]

theorem spells_mark (mark : c ∈ "\x7b\x7d.;+".toList) : sparql.Spells [c] [.mark c] := by
  have cases : c = '\x7b' ∨ c = '\x7d' ∨ c = '.' ∨ c = ';' ∨ c = '+' := by simpa using mark
  rcases cases with rfl | rfl | rfl | rfl | rfl <;>
    exact Lexicon.spells_token rfl (by decide) fun rest _ => rfl

/-- A letter starts a word, and no other token. -/
theorem token?_of_isAlpha (letter : c.isAlpha) :
    sparql.token? (c :: rest) = some (keyword (c :: rest)) := by
  have apart : ∀ d : Char, d.isAlpha = false → c ≠ d := by
    rintro d other rfl
    exact Bool.false_ne_true (other.symm.trans letter)
  have common : sparql.common? (c :: rest) = none := by
    unfold Lexicon.common?
    split
    · next same => exact absurd (List.cons.inj same).1 (apart '<' rfl)
    · next same => exact absurd (List.cons.inj same).1 (apart '_' rfl)
    · next same => exact absurd (List.cons.inj same).1 (apart '@' rfl)
    · next same => exact absurd (List.cons.inj same).1 (apart '^' rfl)
    · rfl
  rw [Lexicon.token?, common, Option.none_or]
  simp [sparql, letter, apart '"' rfl, apart '\'' rfl, apart '?' rfl, apart '$' rfl, apart '\x7b' rfl,
    apart '\x7d' rfl, apart '.' rfl, apart ';' rfl, apart '+' rfl]

/-- Whether a text is a word in capital letters. -/
def isCapital (word : List Char) : Bool :=
  !word.isEmpty && word.all Char.isAlpha && word.map Char.toUpper == word

theorem spells_word {word : String} (capital : isCapital word.toList) :
    sparql.Spells word.toList [.word word] := by
  simp only [isCapital, Bool.and_eq_true, Bool.not_eq_true', List.isEmpty_eq_false_iff, beq_iff_eq]
    at capital
  obtain ⟨⟨occupied, letters⟩, capital⟩ := capital
  obtain ⟨c, more, made⟩ := List.exists_cons_of_ne_nil occupied
  have letter : c.isAlpha := List.all_eq_true.mp letters c (by simp [made])
  have noSpace : ∀ c, isSpace c → c.isAlpha = false := fun c space => by
    rcases eq_of_isSpace space with rfl | rfl | rfl | rfl <;> decide
  have visible : isSpace c = false := by
    cases space : isSpace c with
    | false => rfl
    | true => exact absurd letter (by simp [noSpace c space])
  have noComment : c ≠ '#' := by
    rintro rfl
    exact absurd letter (by decide)
  rw [made]
  refine Lexicon.spells_token visible noComment fun rest ends => ?_
  obtain ⟨taken, left⟩ := span_append letters ends noSpace
  have whole : c :: (more ++ rest) = word.toList ++ rest := by rw [made, List.cons_append]
  rw [token?_of_isAlpha letter, whole, keyword, taken, left, capital, String.ofList_toList]

end Grammar

/-! ## Terms and patterns -/

namespace Term

variable {t : Term}

theorem IsSparql.isSpelled (legal : t.IsSparql) : t.IsSpelled sparql := by
  match t, legal with
  | .iri value, plain => exact plain
  | .blank label, isLabel => exact isLabel
  | .literal value, legal =>
    refine ⟨legal.single, fun iri there => (legal.datatype iri there).1, fun tag there => ?_⟩
    have isTag := legal.language tag there
    rw [Grammar.isTag] at isTag
    split at isTag
    · cases isTag
    · next first rest parts =>
      simp only [Bool.and_eq_true, List.all_eq_true, Bool.not_eq_true', List.isEmpty_eq_false_iff]
        at isTag
      obtain ⟨⟨occupied, letters⟩, others⟩ := isTag
      refine ⟨?_, LanguageTag.plain_of_pieces ?_⟩
      · rintro empty
        rw [empty] at parts
        exact occupied (List.cons.inj parts).1.symm
      · rw [parts]
        refine List.forall_mem_cons.mpr ⟨List.all_eq_true.mpr fun c member => ?_, fun piece member =>
          List.all_eq_true.mpr (others piece member).2⟩
        simp [Char.isAlphanum, letters c member]

theorem IsSparql.spells_text (legal : t.IsSparql) : sparql.Spells t.text.toList t.tokens :=
  legal.isSpelled.spells_text sparql_quotes

end Term

namespace Slot

/-- The tokens of a variable or a term. -/
def tokens : Slot → List Token
  | .var v => [.word (String.ofList ('?' :: v.name.toList))]
  | .term t => t.tokens

theorem IsSparql.spells_text {s : Slot} (legal : s.IsSparql) : sparql.Spells s.text.toList s.tokens := by
  cases s with
  | var v => simpa [text, Variable.text, tokens] using spells_variable legal
  | term t => exact Term.IsSparql.spells_text legal

end Slot

namespace Verb

def tokens : Verb → List Token
  | .var v => (Slot.var v).tokens
  | .term t => t.tokens
  | .oneOrMore t => t.tokens ++ [.mark '+']

theorem IsSparql.spells_text {v : Verb} (legal : v.IsSparql) : sparql.Spells v.text.toList v.tokens := by
  cases v with
  | var v => exact Slot.IsSparql.spells_text (s := .var v) legal
  | term t => exact Term.IsSparql.spells_text legal
  | oneOrMore t =>
    obtain ⟨isIri, plain⟩ := legal
    obtain ⟨value, rfl⟩ := Term.exists_iri_of_isIri isIri
    have text : (Verb.oneOrMore (.iri value)).text.toList = '<' :: (value.toList ++ ['>', '+']) := by
      simp [text, Term.text]
    rw [text]
    intro rest ends
    have plus : sparql.tokens? ('+' :: rest) = (sparql.tokens? rest).map ([.mark '+'] ++ ·) :=
      spells_mark (by decide) rest ends
    have reference : sparql.tokens? ('<' :: (value.toList ++ '>' :: '+' :: rest)) =
        (sparql.tokens? ('+' :: rest)).map (.reference value.toList :: ·) :=
      Lexicon.tokens?_token rfl (by decide) (by simp; omega) (Lexicon.token?_reference plain)
    rw [List.cons_append, List.append_assoc]
    refine reference.trans ?_
    rw [plus]
    simp [tokens, Function.comp_def]

end Verb

namespace TriplePattern

/-- The tokens of a pattern with its full stop. -/
def tokens (p : TriplePattern) : List Token :=
  p.subject.tokens ++ (p.verb.tokens ++ (p.object.tokens ++ [.mark '.']))

/-- The parts of a pattern are read one after the other, whatever each of them is read as. -/
theorem spells_parts {p : TriplePattern} {subject verb object : List Token}
    (first : sparql.Spells p.subject.text.toList subject) (second : sparql.Spells p.verb.text.toList verb)
    (third : sparql.Spells p.object.text.toList object) :
    sparql.Spells p.text.toList (subject ++ (verb ++ (object ++ [.mark '.']))) := by
  have stop : sparql.Spells ['.'] [.mark '.'] := spells_mark (by decide)
  have whole := first.join (second.join (third.join stop (c := ' ') rfl) (c := ' ') rfl) (c := ' ') rfl
  simpa [text] using whole

theorem IsSparql.spells_text {p : TriplePattern} (legal : p.IsSparql) :
    sparql.Spells p.text.toList p.tokens :=
  spells_parts legal.subject.spells_text legal.verb.spells_text legal.object.spells_text

end TriplePattern

/-! ## Groups and queries -/

section Groups
variable (each : TriplePattern → List Token)

namespace Group

mutual

/-- The tokens of a group, given those of its patterns. -/
def tokens : Group → List Token
  | ⟨patterns, optionals⟩ => patterns.flatMap each ++ optionalTokens optionals

/-- The tokens of optional groups. -/
def optionalTokens : List Group → List Token
  | [] => []
  | group :: rest =>
    .word "OPTIONAL" :: .mark '\x7b' :: (group.tokens ++ .mark '\x7d' :: optionalTokens rest)

end

variable {each} {more : List Char} {others : List Token}

mutual

/-- The lines of a group are read as its tokens, at any depth. -/
theorem spells_body : ∀ (group : Group) (depth : Nat) {more : List Char} {others : List Token},
    (∀ p ∈ group.allPatterns, sparql.Spells p.text.toList (each p)) → sparql.Spells more others →
    sparql.Spells ((group.body depth).toList ++ more) (group.tokens each ++ others)
  | ⟨patterns, optionals⟩, depth, more, others, spells, later => by
    rw [allPatterns, List.forall_mem_append] at spells
    have whole := Lexicon.spells_lines depth spells.1
      (spells_optionalsBody optionals depth spells.2 later)
    rw [tokens, List.append_assoc]
    simpa [body, templateText] using whole

theorem spells_optionalsBody : ∀ (groups : List Group) (depth : Nat) {more : List Char}
    {others : List Token}, (∀ p ∈ patternsOf groups, sparql.Spells p.text.toList (each p)) →
    sparql.Spells more others →
    sparql.Spells ((optionalsBody depth groups).toList ++ more) (optionalTokens each groups ++ others)
  | [], _, _, _, _, later => later
  | group :: rest, depth, more, others, spells, later => by
    rw [patternsOf, List.forall_mem_append] at spells
    have opening : sparql.Spells "OPTIONAL \x7b".toList [.word "OPTIONAL", .mark '\x7b'] := by
      have word : sparql.Spells "OPTIONAL".toList [.word "OPTIONAL"] := spells_word (by decide)
      simpa using word.join (spells_mark (c := '\x7b') (by decide)) (c := ' ') rfl
    have closing : sparql.Spells "\x7d".toList [.mark '\x7d'] := spells_mark (by decide)
    have inner := spells_body group (depth + 1) spells.1
      (closing.line depth (spells_optionalsBody rest depth spells.2 later))
    have whole := opening.line depth inner
    simpa [optionalTokens, optionalsBody] using whole

end

/-- The tokens of a group in braces. -/
def blockTokens (each : TriplePattern → List Token) (group : Group) : List Token :=
  .mark '\x7b' :: (group.tokens each ++ [.mark '\x7d'])

theorem spells_text {group : Group}
    (spells : ∀ p ∈ group.allPatterns, sparql.Spells p.text.toList (each p)) :
    sparql.Spells group.text.toList (group.blockTokens each) := by
  have whole := (spells_mark (c := '\x7b') (by decide)).join
    (spells_body group 1 spells (spells_mark (c := '\x7d') (by decide))) (c := '\n') rfl
  simpa [text, blockTokens] using whole

end Group

namespace InstanceQuery

/-- The tokens of a query, given those of its patterns. -/
def tokens (q : InstanceQuery) : List Token :=
  .word (if q.deletes then "DELETE" else "CONSTRUCT") :: .mark '\x7b' ::
    (q.template.flatMap each ++ .mark '\x7d' :: .word "WHERE" :: q.body.blockTokens each)

variable {each}

/-- The statement of a query is read as its tokens. -/
theorem spells_text {q : InstanceQuery}
    (spells : ∀ p ∈ q.template ++ q.body.allPatterns, sparql.Spells p.text.toList (each p)) :
    sparql.Spells q.text.toList (q.tokens each) := by
  rw [List.forall_mem_append] at spells
  have head : sparql.Spells (if q.deletes then "DELETE" else "CONSTRUCT").toList
      [.word (if q.deletes then "DELETE" else "CONSTRUCT")] := by
    split <;> exact spells_word (by decide)
  have word : sparql.Spells "WHERE".toList [.word "WHERE"] := spells_word (by decide)
  have body := word.join ((Group.spells_text spells.2).join Lexicon.spells_nil (c := '\n') rfl)
    (c := ' ') rfl
  have closing := (spells_mark (c := '\x7d') (by decide)).join body (c := '\n') rfl
  have lines := Lexicon.spells_lines 1 spells.1 closing
  have whole := head.join ((spells_mark (c := '\x7b') (by decide)).join lines (c := '\n') rfl)
    (c := ' ') rfl
  simpa [text, tokens, templateText] using whole

end InstanceQuery

end Groups
end Formulary
