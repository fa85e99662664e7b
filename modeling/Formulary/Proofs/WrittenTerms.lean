import Formulary.Document.Node
import Formulary.Proofs.GrammarTokens
import Formulary.Turtle.Writer

/-!
# Terms as they are written

Which terms have a written form in a grammar (`Term.IsWritable`), and the tokens that their text is
read as (`Lexicon.Quotes.spells_term`, `Term.IsSpelled.spells_text`). Quoted text is read back as it
was, whatever characters it has (`Grammar.Lexicon.Quotes`); of an IRI nothing is asked but a scheme
and the characters that may stand between angle brackets.
-/

namespace Formulary

/-! ## Writable terms -/

/-- Whether an IRI is absolute and may stand between angle brackets as it is. -/
def Grammar.isWritable (iri : List Char) : Bool :=
  Grammar.isAbsolute iri && iri.all Grammar.isReferenceChar

/-- The literal has one of the three forms: a well-formed tag in lower case, a datatype other than
that of plain literals and tagged ones, or neither. -/
structure Literal.IsNormal (value : Literal) : Prop where
  single : value.language = none ∨ value.datatype = none
  datatype : ∀ iri ∈ value.datatype, Grammar.isWritable iri.toList ∧
    iri ≠ Xsd.string ∧ iri ≠ Rdf.langString
  language : ∀ tag ∈ value.language, LanguageTag.isWellFormed tag.toList ∧
    tag.toList.map Char.toLower = tag.toList

instance (value : Literal) : Decidable value.IsNormal :=
  decidable_of_iff (_ ∧ _ ∧ _) ⟨fun ⟨single, datatype, language⟩ => ⟨single, datatype, language⟩,
    fun normal => ⟨normal.single, normal.datatype, normal.language⟩⟩

open Document in
/-- A literal with its tag is read as it was. -/
theorem Literal.IsNormal.taggedLiteral?_eq {lexical tag : String}
    (normal : IsNormal ⟨lexical, none, some tag⟩) :
    taggedLiteral? lexical.toList tag.toList = some (.literal ⟨lexical, none, some tag⟩) := by
  obtain ⟨wellFormed, lower⟩ := normal.language tag rfl
  simp [taggedLiteral?, lower, wellFormed, Literal.lang]

open Document in
/-- A literal with its datatype is read as it was. -/
theorem Literal.IsNormal.typedLiteral_eq {lexical datatype : String}
    (normal : IsNormal ⟨lexical, some datatype, none⟩) :
    typedLiteral lexical.toList datatype.toList = .literal ⟨lexical, some datatype, none⟩ := by
  obtain ⟨-, noString, noTagged⟩ := normal.datatype datatype rfl
  simp [typedLiteral, Literal.typed, noString, noTagged]

/-- The term has a written form: a label of the grammar, an IRI for angle brackets, or a literal in
one form. -/
def Term.IsWritable (l : Grammar.Lexicon) : Term → Prop
  | .iri value => Grammar.isWritable value.toList
  | .blank label => l.isLabel label.toList
  | .literal value => value.IsNormal

instance (l : Grammar.Lexicon) (t : Term) : Decidable (t.IsWritable l) :=
  match t with
  | .iri value => inferInstanceAs (Decidable (Grammar.isWritable value.toList = true))
  | .blank label => inferInstanceAs (Decidable (l.isLabel label.toList = true))
  | .literal value => inferInstanceAs (Decidable value.IsNormal)

/-- The parts of the literal may stand where they are written: a datatype between angle brackets, a tag
after an at sign. -/
structure Literal.IsSpelled (value : Literal) : Prop where
  single : value.language = none ∨ value.datatype = none
  datatype : ∀ iri ∈ value.datatype, iri.toList.all Grammar.isReferenceChar
  language : ∀ tag ∈ value.language, tag.toList ≠ [] ∧
    tag.toList.all fun c => c.isAlphanum || c == '-'

/-- The text of the term is told apart from what follows it. -/
def Term.IsSpelled (l : Grammar.Lexicon) : Term → Prop
  | .iri value => value.toList.all Grammar.isReferenceChar
  | .blank label => l.isLabel label.toList
  | .literal value => value.IsSpelled

/-- The triple is valid, and its terms have written forms. -/
structure Triple.IsWritable (l : Grammar.Lexicon) (t : Triple) : Prop where
  isValid : t.isValid
  subject : t.subject.IsWritable l
  predicate : t.predicate.IsWritable l
  object : t.object.IsWritable l

instance (l : Grammar.Lexicon) (t : Triple) : Decidable (t.IsWritable l) :=
  decidable_of_iff (_ ∧ _ ∧ _ ∧ _) ⟨fun ⟨isValid, subject, predicate, object⟩ =>
    ⟨isValid, subject, predicate, object⟩, fun ⟨isValid, subject, predicate, object⟩ =>
    ⟨isValid, subject, predicate, object⟩⟩

/-- The triples of all graphs have written forms. -/
def Dataset.IsWritable (l : Grammar.Lexicon) (d : Dataset) : Prop :=
  ∀ name, ∀ t ∈ d.graph name, t.IsWritable l

theorem Dataset.IsWritable.union {l : Grammar.Lexicon} {d : Dataset} (writable : d.IsWritable l) :
    ∀ t ∈ d.union.toList, t.IsWritable l := fun t member => by
  obtain ⟨name, there⟩ := mem_union.mp (SortedSet.mem_toList.mp member)
  exact writable name t there

/-! ## Quoted text -/

namespace Grammar
open Terminal

section Escapes
variable {c : Char} {text rest : List Char}

theorem shortBody?_escapeChar : shortBody? '"' (Term.escapeChar c ++ text) =
    (shortBody? '"' text).map fun (body, after) => (Term.escapeChar c ++ body, after) := by
  unfold Term.escapeChar
  split
  case h_6 =>
    rw [List.singleton_append, shortBody?]
    all_goals simp_all
  all_goals rfl

theorem decode?_escapeChar : decode? escaped? (Term.escapeChar c ++ text) =
    (decode? escaped? text).map (c :: ·) := by
  unfold Term.escapeChar
  split
  case h_6 =>
    rw [List.singleton_append, decode?]
    all_goals simp_all
  all_goals rfl

theorem shortBody?_escaped :
    shortBody? '"' (text.flatMap Term.escapeChar ++ '"' :: rest) =
      some (text.flatMap Term.escapeChar, rest) := by
  induction text with
  | nil => rfl
  | cons c text ih => simp [shortBody?_escapeChar, ih]

theorem decode?_escaped : decode? escaped? (text.flatMap Term.escapeChar) = some text := by
  induction text with
  | nil => rfl
  | cons c text ih => simp [decode?_escapeChar, ih]

/-- A string is read back from its escapes. -/
theorem shortString?_escaped :
    shortString? '"' (text.flatMap Term.escapeChar ++ '"' :: rest) = some (text, rest) := by
  simp [shortString?, shortBody?_escaped, decode?_escaped]

/-- No quoted text looks like the start of a long string. -/
theorem string?_escaped (apart : rest.head? ≠ some '"') :
    string? '"' (text.flatMap Term.escapeChar ++ '"' :: rest) = some (text, rest) := by
  have short : after? ['"', '"'] (text.flatMap Term.escapeChar ++ '"' :: rest) = none := by
    cases text with
    | nil =>
      cases rest with
      | nil => rfl
      | cons d rest => simpa [after?, eq_comm] using apart
    | cons c text =>
      have first : ∃ d more, Term.escapeChar c = d :: more ∧ '"' ≠ d := by
        unfold Term.escapeChar
        split
        case h_6 _ noQuote _ _ _ => exact ⟨_, _, rfl, Ne.symm noQuote⟩
        all_goals exact ⟨_, _, rfl, by decide⟩
      obtain ⟨d, more, made, noQuote⟩ := first
      simp [made, after?, noQuote]
  simp [string?, short, shortString?_escaped]

end Escapes

end Grammar

/-! ## Tags -/

namespace LanguageTag

theorem advance?_eq_none {place : Place} {subtag : List Char}
    (odd : subtag.all Char.isAlphanum = false) : advance? place subtag = none := by
  obtain ⟨c, member, other⟩ := List.all_eq_false.mp odd
  have letters : subtag.all Char.isAlpha = false :=
    List.all_eq_false.mpr ⟨c, member, fun letter => other (by simp [Char.isAlphanum, letter])⟩
  have digits : subtag.all Char.isDigit = false :=
    List.all_eq_false.mpr ⟨c, member, fun digit => other (by simp [Char.isAlphanum, digit])⟩
  have noPrivate : subtag ≠ ['x'] := by
    rintro rfl
    cases odd
  unfold advance?
  simp only [odd, letters, digits, noPrivate]
  rcases place with _ | _ | _ | _ | (_ | _) | _ <;> simp

theorem isAlphanum_of_foldlM {subtags : List (List Char)} {place last : Place}
    (run : subtags.foldlM advance? place = some last) :
    ∀ subtag ∈ subtags, subtag.all Char.isAlphanum := by
  induction subtags generalizing place with
  | nil => exact nofun
  | cons subtag subtags ih =>
    obtain ⟨next, here, later⟩ := Option.bind_eq_some_iff.mp run
    refine List.forall_mem_cons.mpr ⟨?_, ih later⟩
    cases plain : subtag.all Char.isAlphanum with
    | true => rfl
    | false => cases (advance?_eq_none plain).symm.trans here

theorem isAlphanum_of_primary? {subtag : List Char} {place : Place}
    (primary : primary? subtag = some place) : subtag.all Char.isAlphanum := by
  obtain ⟨short, -⟩ := Option.ite_none_right_eq_some.mp primary
  have letters := (Bool.and_eq_true_iff.mp short).2
  exact List.all_eq_true.mpr fun c member => by
    simp [Char.isAlphanum, List.all_eq_true.mp letters c member]

/-- A tag whose subtags are made of letters and digits has only hyphens besides. -/
theorem plain_of_pieces {tag : List Char}
    (plain : ∀ piece ∈ pieces (· == '-') tag, piece.all Char.isAlphanum) :
    tag.all fun c => c.isAlphanum || c == '-' := by
  refine List.all_eq_true.mpr fun c member => ?_
  rcases isSeparator_or_mem_pieces (· == '-') member with hyphen | ⟨piece, there, here⟩
  · rw [hyphen, Bool.or_true]
  · rw [List.all_eq_true.mp (plain piece there) c here, Bool.true_or]

/-- A well-formed tag is made of letters, digits and hyphens. -/
theorem plain_of_isWellFormed {tag : List Char} (wellFormed : isWellFormed tag) :
    tag ≠ [] ∧ tag.all fun c => c.isAlphanum || c == '-' := by
  have occupied : tag ≠ [] := by
    rintro rfl
    revert wellFormed
    decide
  refine ⟨occupied, ?_⟩
  rcases Bool.or_eq_true_iff.mp wellFormed with known | made
  · have plain : ∀ tag ∈ registered, tag.toList.all fun c => c.isAlphanum || c == '-' := by decide
    simpa using plain _ (List.contains_iff_mem.mp known)
  · have plain : ∀ piece ∈ pieces (· == '-') tag, piece.all Char.isAlphanum := by
      split at made
      · next rest split =>
        rw [split]
        refine List.forall_mem_cons.mpr ⟨rfl, fun piece there => ?_⟩
        exact (Bool.and_eq_true_iff.mp (List.all_eq_true.mp made piece there)).2
      · next first rest _ split =>
        rw [split]
        split at made
        · next place primary =>
          cases run : rest.foldlM advance? place with
          | none => simp [run] at made
          | some last =>
            have first := isAlphanum_of_primary? primary
            exact List.forall_mem_cons.mpr ⟨first, isAlphanum_of_foldlM run⟩
        · cases made
      · cases made
    exact plain_of_pieces plain

end LanguageTag

/-! ## Tokens of terms -/

namespace Namespaces
open Grammar

/-- The token of an IRI: its short name, or the IRI as a reference. -/
def iriToken (n : Namespaces) (iri : String) : Token :=
  match cover? iri n.entries with
  | some (label, _, tail) =>
    if isSafeName tail then .name label.toList tail else .reference iri.toList
  | none => .reference iri.toList

/-- The tokens of a term. -/
def termTokens (n : Namespaces) : Term → List Token
  | .iri value => [n.iriToken value]
  | .blank label => [.blank label.toList]
  | .literal value =>
    .string value.lexical.toList ::
      match value.language, value.datatype with
      | some tag, _ => [.sign tag.toList]
      | none, some datatype => [.datatype, n.iriToken datatype]
      | none, none => []

end Namespaces

namespace Grammar.Lexicon

variable {l : Lexicon} {n : Namespaces}

/-- Strings are read as they are quoted, where no third quote follows at once. -/
def Quotes (l : Lexicon) : Prop := ∀ text rest : List Char, rest.head? ≠ some '"' →
  l.token? ('"' :: (text.flatMap Term.escapeChar ++ '"' :: rest)) = some (.string text, rest)

theorem toList_quoted (lexical : String) :
    (Term.quoted lexical).toList = '"' :: (lexical.toList.flatMap Term.escapeChar ++ ['"']) := by
  simp [Term.quoted]

theorem Quotes.tokens?_quoted (quotes : l.Quotes) {lexical : String} {rest : List Char}
    (apart : rest.head? ≠ some '"') : l.tokens? ((Term.quoted lexical).toList ++ rest) =
      (l.tokens? rest).map (.string lexical.toList :: ·) := by
  rw [toList_quoted, List.cons_append, List.append_assoc, List.singleton_append]
  exact tokens?_token rfl (by decide) (by simp; omega) (quotes lexical.toList rest apart)

/-- A string alone. -/
theorem Quotes.spells_quoted (quotes : l.Quotes) (lexical : String) :
    l.Spells (Term.quoted lexical).toList [.string lexical.toList] := fun rest ends =>
  quotes.tokens?_quoted fun quote => by cases ends '"' quote

/-- A string with what is said about it. -/
theorem Quotes.spells_marked (quotes : l.Quotes) (lexical : String) {c : Char} {piece : List Char}
    {tokens : List Token} (other : c ≠ '"') (marked : l.Spells (c :: piece) tokens) :
    l.Spells ((Term.quoted lexical).toList ++ c :: piece) (.string lexical.toList :: tokens) :=
  fun rest ends => by
    rw [List.append_assoc, quotes.tokens?_quoted (by simpa using other), marked rest ends]
    simp [Function.comp_def]

/-- A term is read as its tokens, where the IRIs in it are. -/
theorem Quotes.spells_term (quotes : l.Quotes) {t : Term} (spelled : t.IsSpelled l)
    (iris : ∀ iri : String, iri.toList.all isReferenceChar →
      l.Spells (n.iriText iri).toList [n.iriToken iri]) :
    l.Spells (n.termText t).toList (n.termTokens t) := by
  match t, spelled with
  | .iri value, plain => exact iris value plain
  | .blank label, isLabel =>
    have text : (n.termText (.blank label)).toList = '_' :: ':' :: label.toList := by
      simp [Namespaces.termText, Term.text]
    rw [text]
    exact spells_blank isLabel
  | .literal ⟨lexical, none, none⟩, _ => exact quotes.spells_quoted lexical
  | .literal ⟨lexical, some datatype, none⟩, spelled =>
    have text : (n.termText (.literal ⟨lexical, some datatype, none⟩)).toList =
        (Term.quoted lexical).toList ++ '^' :: '^' :: (n.iriText datatype).toList := by
      simp [Namespaces.termText]
    rw [text]
    refine quotes.spells_marked lexical (by decide) fun rest ends => ?_
    have iri := iris datatype (spelled.datatype datatype rfl) rest ends
    rw [List.cons_append, List.cons_append, tokens?_token rfl (by decide) (by simp) rfl, iri]
    simp [Function.comp_def]
  | .literal ⟨lexical, none, some tag⟩, spelled =>
    have text : (n.termText (.literal ⟨lexical, none, some tag⟩)).toList =
        (Term.quoted lexical).toList ++ '@' :: tag.toList := by
      simp [Namespaces.termText, Term.text]
    obtain ⟨occupied, plain⟩ := spelled.language tag rfl
    rw [text]
    exact quotes.spells_marked lexical (by decide) (spells_sign occupied plain)
  | .literal ⟨_, some _, some _⟩, spelled => exact absurd spelled.single (by simp)

end Grammar.Lexicon

/-! ## Terms written out in full -/

namespace Term

variable {l : Grammar.Lexicon} {t : Term}

/-- The tokens of a term written out in full. -/
def tokens (t : Term) : List Grammar.Token := ({} : Namespaces).termTokens t

@[simp] theorem tokens_iri {value : String} :
    (Term.iri value).tokens = [.reference value.toList] := rfl

@[simp] theorem tokens_blank {label : String} : (Term.blank label).tokens = [.blank label.toList] := rfl

@[simp] theorem tokens_plain {lexical : String} :
    (Term.literal ⟨lexical, none, none⟩).tokens = [.string lexical.toList] := rfl

@[simp] theorem tokens_typed {lexical datatype : String} :
    (Term.literal ⟨lexical, some datatype, none⟩).tokens =
      [.string lexical.toList, .datatype, .reference datatype.toList] := rfl

@[simp] theorem tokens_tagged {lexical tag : String} :
    (Term.literal ⟨lexical, none, some tag⟩).tokens = [.string lexical.toList, .sign tag.toList] := rfl

/-- Without namespaces to shorten IRIs with, a term is written out in full. -/
theorem toList_termText : (({} : Namespaces).termText t).toList = t.text.toList := by
  rcases t with value | label | ⟨lexical, _ | datatype, _ | tag⟩ <;>
    simp [Namespaces.termText, Namespaces.iriText, Namespaces.compact?, Namespaces.cover?, text]

theorem IsSpelled.spells_text (quotes : l.Quotes) (spelled : t.IsSpelled l) :
    l.Spells t.text.toList t.tokens := by
  rw [← toList_termText]
  refine quotes.spells_term spelled fun iri plain => ?_
  have text : (({} : Namespaces).iriText iri).toList = '<' :: (iri.toList ++ ['>']) := by
    simp [Namespaces.iriText, Namespaces.compact?, Namespaces.cover?]
  rw [text]
  exact Grammar.Lexicon.spells_reference plain

/-- A term with a written form is spelled by it. -/
theorem IsWritable.isSpelled (writable : t.IsWritable l) : t.IsSpelled l := by
  match t, writable with
  | .iri value, writable => exact (Bool.and_eq_true_iff.mp writable).2
  | .blank label, isLabel => exact isLabel
  | .literal value, normal =>
    exact ⟨normal.single, fun iri there => (Bool.and_eq_true_iff.mp (normal.datatype iri there).1).2,
      fun tag there => LanguageTag.plain_of_isWellFormed (normal.language tag there).1⟩

end Term
end Formulary
