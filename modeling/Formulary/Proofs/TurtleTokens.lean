import Formulary.Proofs.TurtleGrammar
import Formulary.Proofs.WrittenTerms

/-!
# The tokens of Turtle texts

The text of a dataset is read as the tokens of its declarations and statements
(`Dataset.tokens?_turtle`): names, references, labels and strings are taken as far as they were
written, whatever namespaces the IRIs are shortened with.
-/

namespace Formulary
open Grammar

/-- The namespaces can be declared: each label is one of the grammar, no two are the same, and each
namespace is an IRI for angle brackets. -/
structure Namespaces.IsWritable (n : Namespaces) : Prop where
  distinct : (n.entries.map Prod.fst).Nodup
  isLabel : ∀ entry ∈ n.entries, isNameLabel entry.1.toList
  isIri : ∀ entry ∈ n.entries, isWritable entry.2.toList

namespace Namespaces

/-! ## Short names -/

/-- The declaration that covers an IRI is one of the declarations, and the IRI is its namespace and
what follows it. -/
theorem mem_of_cover? {iri label ns : String} {tail : List Char} {entries : List (String × String)}
    (covered : cover? iri entries = some (label, ns, tail)) :
    (label, ns) ∈ entries ∧ iri.toList = ns.toList ++ tail := by
  induction entries with
  | nil => cases covered
  | cons entry rest ih =>
    obtain ⟨first, space⟩ := entry
    have here : ∀ {more : List Char}, member? space iri = some more →
        iri.toList = space.toList ++ more := fun found =>
      after?_eq_some_iff.mp (Option.ite_none_left_eq_some.mp found).2
    rw [cover?] at covered
    split at covered
    · next tail' found _ =>
      cases covered
      exact ⟨List.mem_cons_self, here found⟩
    · next tail' later found more =>
      split at covered
      · cases covered
        exact ⟨List.mem_cons_self, here found⟩
      · obtain rfl := Option.some.inj covered
        exact (ih more).imp_left (List.mem_cons_of_mem _)
    · exact (ih covered).imp_left (List.mem_cons_of_mem _)

end Namespaces

namespace Grammar

variable {c : Char} {rest : List Char}

/-! ## Names -/

/-- What a name starts with is none of the signs that other tokens, comments or white space start
with. -/
theorem ne_of_starts (starts : c = ':' ∨ isNameLetter c) :
    ∀ d ∈ "<_@^\"'[],;()+-.# \t\n\r".toList, c ≠ d := by
  have others : "<_@^\"'[],;()+-.# \t\n\r".toList.all
      fun d => d != ':' && !isNameLetter d := by decide
  rintro d member rfl
  obtain ⟨noColon, noLetter⟩ : c ≠ ':' ∧ isNameLetter c = false := by
    simpa using List.all_eq_true.mp others c member
  rcases starts with colon | letter
  · exact noColon colon
  · exact Bool.false_ne_true (noLetter.symm.trans letter)

theorem isDigit_eq_false (letter : isNameLetter c) : c.isDigit = false := by
  have above : 65 ≤ c.toNat := by
    simp only [isNameLetter, inRanges, List.any_cons, List.any_nil, Bool.or_eq_true,
      Bool.and_eq_true, decide_eq_true_eq, Bool.false_eq_true, or_false] at letter
    omega
  suffices 48 ≤ c.toNat → 57 < c.toNat by simpa [Char.isDigit, UInt32.le_iff_toNat_le]
  omega

/-- The characters of a safe name go on with a local part and are no escapes. -/
theorem inLocal_of_isNameChar (inName : Namespaces.isNameChar c) :
    isNameRest c ∧ c ≠ '%' ∧ c ≠ '\\' := by
  refine ⟨?_, ?_, ?_⟩
  · simp only [Namespaces.isNameChar, Char.isAlphanum, Bool.or_eq_true, beq_iff_eq] at inName
    rcases inName with ((letter | digit) | same) | same
    · simp [isNameRest, isNameLetter_of_isAlpha letter]
    · simp [isNameRest, digit]
    · simp [isNameRest, same]
    · simp [isNameRest, same]
  · rintro rfl
    revert inName
    decide
  · rintro rfl
    revert inName
    decide

theorem isNameChar_of_isNameStart (starts : Namespaces.isNameStart c) :
    Namespaces.isNameChar c := by
  simp only [Namespaces.isNameStart, Bool.or_eq_true] at starts
  rcases starts with letter | same
  · simp [Namespaces.isNameChar, Char.isAlphanum, letter]
  · simp [Namespaces.isNameChar, same]

theorem localRest?_append {run : List Char} (inName : run.all Namespaces.isNameChar)
    (ends : Ends rest) : Terminal.localRest? (run ++ rest) = some (run, rest) := by
  induction run with
  | nil => obtain rfl | ⟨_, rfl | rfl | rfl | rfl⟩ := ends.cases <;> rfl
  | cons c run ih =>
    obtain ⟨here, later⟩ := Bool.and_eq_true_iff.mp ((List.all_cons).symm.trans inName)
    obtain ⟨goesOn, noPercent, noEscape⟩ := inLocal_of_isNameChar here
    rw [List.cons_append, Terminal.localRest?, ih later]
    · simp [goesOn]
    all_goals simp_all

/-- A safe name is read as it is. -/
theorem localPart?_append {name : List Char} (safe : Namespaces.isSafeName name)
    (ends : Ends rest) : Terminal.localPart? (name ++ rest) = some (name, rest) := by
  cases name with
  | nil => obtain rfl | ⟨_, rfl | rfl | rfl | rfl⟩ := ends.cases <;> rfl
  | cons c name =>
    obtain ⟨starts, inName⟩ := Bool.and_eq_true_iff.mp safe
    have all : (c :: name).all Namespaces.isNameChar := by
      rw [List.all_cons, isNameChar_of_isNameStart starts, inName]
      rfl
    have first : isNameLetter c || c == '_' := by
      rcases Bool.or_eq_true_iff.mp starts with letter | same
      · simp [isNameLetter_of_isAlpha letter]
      · simp [same]
    rw [← localRest?_append all ends, List.cons_append, Terminal.localPart?]
    simp only [first, Bool.true_or, if_true]

theorem nameLabel?_append {label : List Char} (isLabel : isNameLabel label) :
    nameLabel? (label ++ ':' :: rest) = some (label, rest) := by
  cases label with
  | nil => rfl
  | cons c label =>
    obtain ⟨letter, isRun⟩ := Bool.and_eq_true_iff.mp isLabel
    have noColon : c ≠ ':' := by
      rintro rfl
      cases letter
    have run : stopped isNameRest (label ++ ':' :: rest) = (label, ':' :: rest) := by
      refine stopped_append isRun fun d first => ?_
      obtain rfl := Option.some.inj first
      decide
    simp [nameLabel?, noColon, letter, run]

/-! ## Tokens of Turtle alone -/

/-- What starts with a letter or a colon is a name or a word. -/
theorem token?_of_starts (starts : c = ':' ∨ isNameLetter c) :
    turtle.token? (c :: rest) = nameOrWord? (c :: rest) := by
  have other := ne_of_starts starts
  have noDigit : c.isDigit = false := by
    rcases starts with rfl | letter
    · rfl
    · exact isDigit_eq_false letter
  simp only [String.reduceToList, List.mem_cons, List.not_mem_nil, or_false, ne_eq,
    forall_eq_or_imp, forall_eq] at other
  have common : turtle.common? (c :: rest) = none := by
    unfold Lexicon.common?
    split <;> simp_all
  rw [Lexicon.token?, common, Option.none_or]
  simp [turtle, other, noDigit]

/-- The short name of an IRI is read as its label and its member. -/
theorem spells_name {label member : List Char} (isLabel : isNameLabel label)
    (safe : Namespaces.isSafeName member) :
    turtle.Spells (label ++ ':' :: member) [.name label member] := by
  obtain ⟨c, piece, starts, whole⟩ : ∃ c piece, (c = ':' ∨ isNameLetter c) ∧
      label ++ ':' :: member = c :: piece := by
    cases label with
    | nil => exact ⟨_, _, .inl rfl, rfl⟩
    | cons c label => exact ⟨_, _, .inr (Bool.and_eq_true_iff.mp isLabel).1, rfl⟩
  have other := ne_of_starts starts
  simp only [String.reduceToList, List.mem_cons, List.not_mem_nil, or_false, ne_eq,
    forall_eq_or_imp, forall_eq] at other
  rw [whole]
  refine Lexicon.spells_token (by simp [isSpace, other]) (by simp [other]) fun rest ends => ?_
  rw [token?_of_starts starts, ← List.cons_append, ← whole, List.append_assoc, List.cons_append,
    nameOrWord?, nameLabel?_append isLabel]
  simp [localPart?_append safe ends]

theorem spells_typeWord : turtle.Spells ['a'] [.word "a"] :=
  Lexicon.spells_token rfl (by decide) fun rest ends => by
    have noLabel : nameLabel? ('a' :: rest) = none := by
      have run : stopped isNameRest rest = ([], rest) := by
        refine stopped_append (show isStopped isNameRest [] from rfl) fun d first => ?_
        rcases eq_of_isSpace (ends d first) with rfl | rfl | rfl | rfl <;> decide
      rw [nameLabel?, run]
      obtain rfl | ⟨_, rfl | rfl | rfl | rfl⟩ := ends.cases <;> rfl
    rw [List.nil_append, token?_of_starts (.inr rfl), nameOrWord?, noLabel]
    rfl

theorem spells_semicolon : turtle.Spells [';'] [.mark ';'] :=
  Lexicon.spells_token rfl (by decide) fun _ _ => rfl

/-- A full stop before white space belongs to no number. -/
theorem spells_stop : turtle.Spells ['.'] [.mark '.'] :=
  Lexicon.spells_token rfl (by decide) fun rest ends => by
    obtain rfl | ⟨_, rfl | rfl | rfl | rfl⟩ := ends.cases <;> rfl

theorem turtle_quotes : turtle.Quotes := fun text rest apart => by
  simp [Lexicon.token?, Lexicon.common?, turtle, string?_escaped apart]

end Grammar

/-! ## Texts -/

namespace Namespaces

variable {n : Namespaces} (named : n.IsWritable)

/-- The tokens of a predicate. -/
def verbTokens (n : Namespaces) (predicate : Term) : List Token :=
  if predicate = .iri Rdf.type then [.word "a"] else n.termTokens predicate

/-- The tokens before the predicate of a triple, where the open statement has the given subject. -/
def leadTokens (n : Namespaces) (current : Option Term) (subject : Term) : List Token :=
  if current = some subject then [.mark ';']
  else (if current.isSome then [.mark '.'] else []) ++ n.termTokens subject

/-- The tokens of statements. -/
def statementTokens (n : Namespaces) (current : Option Term) : List Triple → List Token
  | [] => if current.isSome then [.mark '.'] else []
  | t :: rest => n.leadTokens current t.subject ++ (n.verbTokens t.predicate ++
      (n.termTokens t.object ++ statementTokens n (some t.subject) rest))

/-- The first statement is opened by its subject. -/
theorem statementTokens_first (t : Triple) (rest : List Triple) :
    n.statementTokens none (t :: rest) = n.termTokens t.subject ++ (n.verbTokens t.predicate ++
      (n.termTokens t.object ++ n.statementTokens (some t.subject) rest)) := by
  simp [statementTokens, leadTokens]

/-- The open statement goes on with the same subject. -/
theorem statementTokens_same (t : Triple) (rest : List Triple) :
    n.statementTokens (some t.subject) (t :: rest) = .mark ';' :: (n.verbTokens t.predicate ++
      (n.termTokens t.object ++ n.statementTokens (some t.subject) rest)) := by
  simp [statementTokens, leadTokens]

/-- Another subject opens a statement of its own. -/
theorem statementTokens_other {subject : Term} {t : Triple} (other : subject ≠ t.subject)
    (rest : List Triple) : n.statementTokens (some subject) (t :: rest) =
      .mark '.' :: n.statementTokens none (t :: rest) := by
  simp [statementTokens, leadTokens, other]

/-- The tokens of declarations. -/
def declarationTokens (entries : List (String × String)) : List Token :=
  entries.flatMap fun entry =>
    [.sign "prefix".toList, .name entry.1.toList [], .reference entry.2.toList, .mark '.']

theorem length_declarationTokens {entries : List (String × String)} :
    (declarationTokens entries).length = 4 * entries.length := by
  induction entries with
  | nil => rfl
  | cons entry entries ih =>
    rw [declarationTokens, List.flatMap_cons, ← declarationTokens, List.length_append, ih]
    simp only [List.length_cons, List.length_nil]
    omega

theorem length_le_statementTokens (current : Option Term) (triples : List Triple) :
    triples.length ≤ (n.statementTokens current triples).length := by
  induction triples generalizing current with
  | nil => exact Nat.zero_le _
  | cons t rest ih =>
    have occupied : 0 < (n.termTokens t.object).length := by
      cases t.object <;> simp [termTokens]
    have later := ih (some t.subject)
    simp only [statementTokens, List.length_append, List.length_cons]
    omega

include named in
theorem spells_iri {iri : String} (plain : iri.toList.all isReferenceChar) :
    turtle.Spells (n.iriText iri).toList [n.iriToken iri] := by
  have whole : turtle.Spells ("<" ++ iri ++ ">").toList [.reference iri.toList] := by
    have text : ("<" ++ iri ++ ">").toList = '<' :: (iri.toList ++ ['>']) := by simp
    rw [text]
    exact Lexicon.spells_reference plain
  cases covered : cover? iri n.entries with
  | none => simpa only [iriText, compact?, iriToken, covered, Option.getD_none] using whole
  | some found =>
    obtain ⟨label, ns, tail⟩ := found
    cases safe : isSafeName tail with
    | false => simpa [iriText, compact?, iriToken, covered, safe] using whole
    | true =>
      have isLabel := named.isLabel _ (mem_of_cover? covered).1
      simpa [iriText, compact?, iriToken, covered, safe] using spells_name isLabel safe

include named in
theorem spells_termText {t : Term} (writable : t.IsWritable turtle) :
    turtle.Spells (n.termText t).toList (n.termTokens t) :=
  turtle_quotes.spells_term writable.isSpelled fun _ plain => spells_iri named plain

include named in
theorem spells_verbText {t : Term} (writable : t.IsWritable turtle) :
    turtle.Spells (n.verbText t).toList (n.verbTokens t) := by
  rw [verbText, verbTokens]
  split
  · exact spells_typeWord
  · exact spells_termText named writable

/-- A predicate and its object, before what continues the open statement. -/
theorem spells_verb_object (named : n.IsWritable) {t : Triple} (writable : t.IsWritable turtle)
    {more : List Char} {tokens : List Token} (later : turtle.Spells more tokens) :
    turtle.Spells
      ((n.verbText t.predicate).toList ++ ' ' :: ((n.termText t.object).toList ++ ' ' :: more))
      (n.verbTokens t.predicate ++ (n.termTokens t.object ++ tokens)) :=
  (spells_verbText named writable.predicate).join
    ((spells_termText named writable.object).join later rfl) rfl

/-- What continues an open statement starts with a blank, which parts it from the object before. -/
theorem spells_statements_some (named : n.IsWritable) {triples : List Triple}
    (writable : ∀ t ∈ triples, t.IsWritable turtle) (subject : Term) :
    ∃ more, (n.statements (some subject) triples).toList = ' ' :: more ∧
      turtle.Spells more (n.statementTokens (some subject) triples) := by
  induction triples generalizing subject with
  | nil => exact ⟨['.', '\n'], by simp [statements], spells_stop.join Lexicon.spells_nil rfl⟩
  | cons t rest ih =>
    obtain ⟨here, later⟩ := List.forall_mem_cons.mp writable
    obtain ⟨more, text, spells⟩ := ih later t.subject
    have body := spells_verb_object named here spells
    by_cases same : subject = t.subject
    · subst same
      have indented := body.spaces (show "    ".toList.all isSpace from rfl)
      rw [statementTokens_same]
      refine ⟨_, ?_, spells_semicolon.join indented (c := '\n') rfl⟩
      simp [statements, lead, text]
    · have next := (spells_termText named here.subject).join body (c := ' ') rfl
      rw [statementTokens_other same, statementTokens_first]
      refine ⟨_, ?_, spells_stop.join (next.space (c := '\n') rfl) (c := '\n') rfl⟩
      simp [statements, lead, same, text]

/-- The statements of triples are read as their tokens. -/
theorem spells_statements (named : n.IsWritable) {triples : List Triple}
    (writable : ∀ t ∈ triples, t.IsWritable turtle) :
    turtle.Spells (n.statements none triples).toList (n.statementTokens none triples) := by
  cases triples with
  | nil => exact Lexicon.spells_nil
  | cons t rest =>
    obtain ⟨here, later⟩ := List.forall_mem_cons.mp writable
    obtain ⟨more, text, spells⟩ := spells_statements_some named later t.subject
    have whole := (spells_termText named here.subject).join (spells_verb_object named here spells)
      (c := ' ') rfl
    rw [statementTokens_first]
    simpa [statements, lead, text] using whole

/-- One declaration. -/
theorem spells_declaration {label ns : String} (isLabel : isNameLabel label.toList)
    (plain : isWritable ns.toList) :
    turtle.Spells ("@prefix " ++ label ++ ": <" ++ ns ++ "> .").toList
      [.sign "prefix".toList, .name label.toList [], .reference ns.toList, .mark '.'] := by
  have word : turtle.Spells "@prefix".toList [.sign "prefix".toList] :=
    Lexicon.spells_sign (by decide) (by decide)
  have name : turtle.Spells (label.toList ++ [':']) [.name label.toList []] :=
    spells_name isLabel rfl
  have reference : turtle.Spells ('<' :: (ns.toList ++ ['>'])) [.reference ns.toList] :=
    Lexicon.spells_reference (Bool.and_eq_true_iff.mp plain).2
  have whole := word.join (name.join (reference.join spells_stop (c := ' ') rfl) (c := ' ') rfl)
    (c := ' ') rfl
  simpa using whole

/-- Declarations, each on its line, before whatever follows them. -/
theorem spells_declarations {entries : List (String × String)}
    (isLabel : ∀ entry ∈ entries, isNameLabel entry.1.toList)
    (plain : ∀ entry ∈ entries, isWritable entry.2.toList) {more : List Char} {tokens : List Token}
    (later : turtle.Spells more tokens) :
    turtle.Spells ((String.join (entries.map fun entry =>
        "@prefix " ++ entry.1 ++ ": <" ++ entry.2 ++ "> .\n")).toList ++ more)
      (declarationTokens entries ++ tokens) := by
  induction entries with
  | nil => exact later
  | cons entry rest ih =>
    obtain ⟨label, labels⟩ := List.forall_mem_cons.mp isLabel
    obtain ⟨ns, others⟩ := List.forall_mem_cons.mp plain
    have whole := (spells_declaration label ns).join (ih labels others) (c := '\n') rfl
    simpa [String.toList_join, declarationTokens] using whole

end Namespaces

/-- The text of a dataset is read as the tokens of its declarations and statements. -/
theorem Dataset.tokens?_turtle {d : Dataset} {n : Namespaces}
    (writable : d.IsWritable Grammar.turtle) (named : n.IsWritable) :
    Grammar.turtle.tokens? (d.turtle n).toList =
      some (Namespaces.declarationTokens n.entries ++ n.statementTokens none d.union.toList) := by
  have body := Namespaces.spells_statements named writable.union
  have gap : (if n.entries.isEmpty then "" else "\n").toList.all isSpace := by split <;> rfl
  have whole := Namespaces.spells_declarations named.isLabel named.isIri (body.spaces gap) [] nofun
  rw [List.append_nil, Grammar.Lexicon.tokens?_nil] at whole
  simpa [Dataset.turtle, Namespaces.header] using whole

end Formulary
