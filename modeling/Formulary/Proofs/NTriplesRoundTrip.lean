import Formulary.NTriples.Writer
import Formulary.Proofs.FiniteContent
import Formulary.Proofs.WrittenTerms

/-!
# N-Triples texts read back

The grammar of N-Triples, and what it makes of the text of a dataset: one line for each triple of
the union of all graphs, in triple order, each line the triple it was written for
(`Dataset.nTriples_exact`). The text therefore determines the union.
-/

namespace Formulary
namespace Grammar
open Document

/-! ## The grammar -/

/-- The letters of a label include the colon here. -/
def nTriples : Lexicon where
  isLetter c := isNameLetter c || c == '_' || c == ':'
  visible c space := by rcases eq_of_isSpace space with rfl | rfl | rfl | rfl <;> decide
  other?
    | '"' :: rest => (Terminal.shortString? '"' rest).map (Prod.map .string id)
    | '.' :: rest => some (.mark '.', rest)
    | _ => none

/-- Reads an IRI, which is absolute, or a blank node. -/
def resource? : List Token → Option (Term × List Token)
  | .reference value :: rest =>
    if isAbsolute value then some (.iri (String.ofList value), rest) else none
  | .blank label :: rest => some (.blank (String.ofList label), rest)
  | _ => none

/-- Reads an object. -/
def object? : List Token → Option (Term × List Token)
  | .string lexical :: .sign tag :: rest => (taggedLiteral? lexical tag).map (·, rest)
  | .string lexical :: .datatype :: .reference value :: rest =>
    if isAbsolute value then some (typedLiteral lexical value, rest) else none
  | .string lexical :: rest => some (.plain (String.ofList lexical), rest)
  | tokens => resource? tokens

/-- The triple of the tokens of a line. -/
def triple? (tokens : List Token) : Option Triple := do
  let (subject, tokens) ← resource? tokens
  let (predicate, tokens) ← resource? tokens
  let (object, tokens) ← object? tokens
  if predicate.isIri && tokens == [.mark '.'] then some ⟨subject, predicate, object⟩ else none

/-- The triple of a line, which may be empty. -/
def lineTriple? (line : List Char) : Option (Option Triple) :=
  match nTriples.tokens? line with
  | none => none
  | some [] => some none
  | some tokens => (triple? tokens).map some

/-- Characters that end a line. -/
def isLineEnd (c : Char) : Bool := c == '\n' || c == '\r'

/-- The triples of a document. -/
def readNTriples? (text : List Char) : Option Graph := do
  let found ← (pieces isLineEnd text).mapM lineTriple?
  return .ofList (found.filterMap id)

theorem nTriples_quotes : nTriples.Quotes := fun text rest _ => by
  simp [Lexicon.token?, Lexicon.common?, nTriples, shortString?_escaped]

end Grammar

open Grammar

/-! ## Lines -/

namespace Term

variable {t : Term} {rest : List Token}

theorem resource?_tokens (writable : t.IsWritable nTriples) (noLiteral : t.isLiteral = false) :
    resource? (t.tokens ++ rest) = some (t, rest) := by
  match t, writable, noLiteral with
  | .iri value, writable, _ =>
    have absolute : isAbsolute value.toList := (Bool.and_eq_true_iff.mp writable).1
    simp [tokens, Namespaces.termTokens, Namespaces.iriToken, Namespaces.cover?, resource?,
      absolute]
  | .blank label, _, _ => simp [tokens, Namespaces.termTokens, resource?]

theorem object?_tokens (writable : t.IsWritable nTriples) :
    object? (t.tokens ++ [.mark '.']) = some (t, [.mark '.']) := by
  match t, writable with
  | .iri value, writable => exact resource?_tokens writable rfl
  | .blank label, writable => exact resource?_tokens writable rfl
  | .literal ⟨lexical, none, none⟩, _ =>
    simp [tokens, Namespaces.termTokens, object?, plain]
  | .literal ⟨lexical, some datatype, none⟩, normal =>
    have absolute : isAbsolute datatype.toList :=
      (Bool.and_eq_true_iff.mp (normal.datatype datatype rfl).1).1
    simp [tokens, Namespaces.termTokens, Namespaces.iriToken, Namespaces.cover?, object?, absolute,
      normal.typedLiteral_eq]
  | .literal ⟨lexical, none, some tag⟩, normal =>
    simp [tokens, Namespaces.termTokens, object?, normal.taggedLiteral?_eq]
  | .literal ⟨_, some _, some _⟩, normal => exact absurd normal.single (by simp)

end Term

namespace Triple

variable {t : Triple} (writable : t.IsWritable nTriples)
include writable

theorem tokens?_text : nTriples.tokens? t.text.toList =
    some (t.subject.tokens ++ (t.predicate.tokens ++ (t.object.tokens ++ [.mark '.']))) := by
  have stop : nTriples.Spells ['.'] [.mark '.'] :=
    Lexicon.spells_token rfl (by decide) fun rest _ => rfl
  have spells := (writable.subject.isSpelled.spells_text nTriples_quotes).join
    ((writable.predicate.isSpelled.spells_text nTriples_quotes).join
      ((writable.object.isSpelled.spells_text nTriples_quotes).join stop (c := ' ') rfl) (c := ' ') rfl)
    (c := ' ') rfl
  have text : t.text.toList = t.subject.text.toList ++ ' ' ::
      (t.predicate.text.toList ++ ' ' :: (t.object.text.toList ++ ' ' :: ['.'])) := by
    simp [Triple.text]
  have read := spells [] nofun
  rw [List.append_nil, ← text, Lexicon.tokens?_nil] at read
  simpa using read

/-- The line of a triple is read as that triple. -/
theorem lineTriple?_text : lineTriple? t.text.toList = some (some t) := by
  obtain ⟨isIri, noLiteral⟩ := isValid_iff.mp writable.isValid
  obtain ⟨value, iri⟩ := Term.exists_iri_of_isIri isIri
  have made : triple? (t.subject.tokens ++
      (t.predicate.tokens ++ (t.object.tokens ++ [.mark '.']))) = some t := by
    rw [triple?, Term.resource?_tokens writable.subject noLiteral]
    simp [Term.resource?_tokens writable.predicate (by rw [iri]; rfl),
      Term.object?_tokens writable.object, isIri]
  rw [lineTriple?, tokens?_text writable]
  split
  · contradiction
  · next none => simp at none
  · next found => rw [← Option.some.inj found, made, Option.map_some]

end Triple

/-! ## Line ends -/

/-- Whether a text goes on without a line end. -/
def isUnbroken (text : List Char) : Bool := text.all fun c => !isLineEnd c

@[simp] theorem isUnbroken_nil : isUnbroken [] := rfl

@[simp] theorem isUnbroken_cons {c : Char} {rest : List Char} :
    isUnbroken (c :: rest) = (!isLineEnd c && isUnbroken rest) := List.all_cons

@[simp] theorem isUnbroken_append {one two : List Char} :
    isUnbroken (one ++ two) = (isUnbroken one && isUnbroken two) := List.all_append

/-- A run of characters of a kind has no line end where the kind has none. -/
theorem isUnbroken_of_all {p : Char → Bool} {run : List Char} (inRun : run.all p)
    (noLine : p '\n' = false) (noReturn : p '\r' = false) : isUnbroken run := by
  refine List.all_eq_true.mpr fun c member => ?_
  have here := List.all_eq_true.mp inRun c member
  have other : c ≠ '\n' ∧ c ≠ '\r' := by
    constructor <;> rintro rfl <;> simp_all
  simp [isLineEnd, other]

theorem isUnbroken_quoted (lexical : String) : isUnbroken (Term.quoted lexical).toList := by
  have escaped : ∀ c, isUnbroken (Term.escapeChar c) := fun c => by
    unfold Term.escapeChar
    split
    case h_6 => simp_all [isLineEnd]
    all_goals rfl
  have body : isUnbroken (lexical.toList.flatMap Term.escapeChar) := by
    induction lexical.toList with
    | nil => rfl
    | cons c text ih => simp [escaped, ih]
  simp +decide [Lexicon.toList_quoted, body]

theorem isUnbroken_iri {iri : List Char} (plain : isWritable iri) : isUnbroken iri :=
  isUnbroken_of_all (Bool.and_eq_true_iff.mp plain).2 rfl rfl

theorem isUnbroken_label {label : List Char} (isLabel : nTriples.isLabel label) :
    isUnbroken label := by
  cases label with
  | nil => rfl
  | cons c label =>
    obtain ⟨starts, isRun⟩ := Bool.and_eq_true_iff.mp isLabel
    have first : isUnbroken [c] :=
      isUnbroken_of_all (p := nTriples.startsLabel) (by simpa using starts) rfl rfl
    have later : isUnbroken label := isUnbroken_of_all (Bool.and_eq_true_iff.mp isRun).1 rfl rfl
    simp_all

/-- No term is written over more than one line. -/
theorem Term.isUnbroken_text {t : Term} (writable : t.IsWritable nTriples) :
    isUnbroken t.text.toList := by
  match t, writable with
  | .iri value, writable =>
    have plain := isUnbroken_iri writable
    simp +decide [text, plain]
  | .blank label, writable =>
    have plain := isUnbroken_label writable
    simp +decide [text, plain]
  | .literal ⟨lexical, none, none⟩, _ => exact isUnbroken_quoted lexical
  | .literal ⟨lexical, some datatype, none⟩, normal =>
    have plain := isUnbroken_iri (normal.datatype datatype rfl).1
    simp +decide [text, isUnbroken_quoted, plain]
  | .literal ⟨lexical, none, some tag⟩, normal =>
    have plain : isUnbroken tag.toList :=
      isUnbroken_of_all (LanguageTag.plain_of_isWellFormed (normal.language tag rfl).1).2 rfl rfl
    simp +decide [text, isUnbroken_quoted, plain]
  | .literal ⟨_, some _, some _⟩, normal => exact absurd normal.single (by simp)

theorem Triple.isUnbroken_text {t : Triple} (writable : t.IsWritable nTriples) :
    isUnbroken t.text.toList := by
  simp +decide [Triple.text, Term.isUnbroken_text writable.subject,
    Term.isUnbroken_text writable.predicate, Term.isUnbroken_text writable.object]

/-! ## Documents -/

section Documents
variable {triples : List Triple} (writable : ∀ t ∈ triples, t.IsWritable nTriples)
include writable

/-- Every triple has a line of its own, and nothing follows the last line. -/
theorem pieces_lines :
    pieces isLineEnd (triples.flatMap fun t : Triple => t.text.toList ++ ['\n']) =
      triples.map (fun t : Triple => t.text.toList) ++ [[]] := by
  induction triples with
  | nil => rfl
  | cons t rest ih =>
    obtain ⟨here, later⟩ := List.forall_mem_cons.mp writable
    have plain : ∀ c ∈ t.text.toList, isLineEnd c = false := by
      simpa [isUnbroken] using Triple.isUnbroken_text here
    rw [List.flatMap_cons, List.append_assoc, List.singleton_append, pieces_append plain rfl,
      ih later]
    rfl

theorem mapM_lineTriple? :
    (triples.map (fun t : Triple => t.text.toList) ++ [[]]).mapM lineTriple? =
      some (triples.map some ++ [none]) := by
  induction triples with
  | nil => simp [lineTriple?]
  | cons t rest ih =>
    obtain ⟨here, later⟩ := List.forall_mem_cons.mp writable
    rw [List.map_cons, List.cons_append, List.mapM_cons, Triple.lineTriple?_text here, ih later]
    rfl

end Documents

theorem Dataset.toList_nTriples (d : Dataset) :
    d.nTriples.toList = d.union.toList.flatMap fun t : Triple => t.text.toList ++ ['\n'] := by
  simp [Dataset.nTriples, Graph.nTriples, String.toList_join, List.flatMap_map]

/-- The text of a dataset is read as the union of its graphs. -/
theorem readNTriples?_text {d : Dataset} (writable : d.IsWritable nTriples) :
    readNTriples? d.nTriples.toList = some d.union := by
  rw [readNTriples?, Dataset.toList_nTriples, pieces_lines writable.union,
    mapM_lineTriple? writable.union]
  simp [SortedSet.ofList_toList]

/-- One line for each triple of any graph, in triple order; the lines are read as these triples; and
the union of the graphs is all that the text depends on and all that can be told from it. -/
theorem Dataset.nTriples_exact {d e : Dataset} (writable : d.IsWritable Grammar.nTriples)
    (writable' : e.IsWritable Grammar.nTriples) :
    (∃ triples : List Triple, triples.Pairwise (fun s t => compare s t = .lt) ∧
      (∀ t, t ∈ triples ↔ ∃ name, t ∈ d.graph name) ∧
      pieces isLineEnd d.nTriples.toList = triples.map (fun t : Triple => t.text.toList) ++ [[]]) ∧
    readNTriples? d.nTriples.toList = some d.union ∧
    (d.nTriples = e.nTriples ↔ d.union = e.union) := by
  refine ⟨⟨d.union.toList, d.union.ascending, fun _ => Dataset.mem_union, ?_⟩,
    readNTriples?_text writable, fun same => ?_, fun same => ?_⟩
  · rw [Dataset.toList_nTriples, pieces_lines writable.union]
  · have read := readNTriples?_text writable
    rw [same, readNTriples?_text writable'] at read
    exact (Option.some.inj read).symm
  · rw [Dataset.nTriples, Dataset.nTriples, same]

/-- Notes with a line break, quotes and what looks like an escape, on a node whose label has a colon
and full stops in it. -/
def noteTriples : List Triple :=
  [⟨.blank "n..1:a", .iri "urn:note", .literal (.lang "say \"\\n\"\r\n" "en-gb")⟩,
    ⟨.blank "n..1:a", .iri "urn:size", .literal (.typed "\\u0041" Xsd.integer)⟩,
    ⟨.iri "urn:x#é", .iri "urn:note", .plain "\t\""⟩]

/-- The notes in two graphs that share one of them. -/
def notes : Dataset :=
  (Dataset.ofGraph (.ofList (noteTriples.take 2))).setGraph (some (.iri "urn:graph"))
    (.ofList (noteTriples.drop 1))

theorem isWritable_notes : notes.IsWritable nTriples ∧
    (Dataset.ofGraph (.ofList noteTriples)).IsWritable nTriples := by
  have each : ∀ t ∈ noteTriples, t.IsWritable nTriples := by decide
  have inGraph : ∀ list : List Triple, (∀ t ∈ list, t ∈ noteTriples) →
      ∀ name, ∀ t ∈ (Dataset.ofGraph (.ofList list)).graph name, t.IsWritable nTriples := by
    intro list sub name t member
    rw [Dataset.graph_ofGraph] at member
    split at member
    · exact each t (sub t (SortedSet.mem_ofList.mp member))
    · exact absurd member SortedSet.not_mem_empty
  refine ⟨fun name t member => ?_, inGraph _ fun _ => id⟩
  rw [notes, Dataset.graph_setGraph] at member
  split at member
  · exact each t (List.mem_of_mem_drop (SortedSet.mem_ofList.mp member))
  · exact inGraph _ (fun _ => List.mem_of_mem_take) name t member

/-- A dataset of two graphs and one of their union have the same text, which holds its three
triples. -/
theorem Dataset.nTriples_exact_notes :
    notes.IsWritable Grammar.nTriples ∧
    (Dataset.ofGraph (.ofList noteTriples)).IsWritable Grammar.nTriples ∧
    (∃ triples : List Triple, triples.Pairwise (fun s t => compare s t = .lt) ∧
      (∀ t, t ∈ triples ↔ ∃ name, t ∈ notes.graph name) ∧
      pieces isLineEnd notes.nTriples.toList =
        triples.map (fun t : Triple => t.text.toList) ++ [[]]) ∧
    readNTriples? notes.nTriples.toList = some (.ofList noteTriples) ∧
    notes.nTriples = (Dataset.ofGraph (.ofList noteTriples)).nTriples := by
  obtain ⟨writable, writable'⟩ := isWritable_notes
  have same : notes.union = (Dataset.ofGraph (.ofList noteTriples)).union := by decide
  have whole : notes.union = .ofList noteTriples := by decide
  obtain ⟨lines, read, text⟩ := Dataset.nTriples_exact writable writable'
  exact ⟨writable, writable', lines, whole ▸ read, text.mpr same⟩

end Formulary
