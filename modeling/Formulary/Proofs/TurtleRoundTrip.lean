import Formulary.Proofs.FiniteContent
import Formulary.Proofs.TurtleTokens
import Mathlib.Data.List.Nodup

/-!
# Turtle texts read back

What the grammar of Turtle makes of the tokens of a dataset: the declarations give every short name
the IRI that it was written for, and the statements give the triples of the union of all graphs,
each once and no other (`Dataset.readTurtle?_turtle`). This holds for any namespaces, also where one
is the beginning of another one.
-/

namespace Formulary
open Grammar

/-! ## Declared names -/

theorem lookup_of_mem {α β : Type} [BEq α] [LawfulBEq α] {pairs : List (α × β)} {a : α} {b : β}
    (distinct : (pairs.map Prod.fst).Nodup) (member : (a, b) ∈ pairs) :
    pairs.lookup a = some b := by
  induction pairs with
  | nil => cases member
  | cons pair rest ih =>
    obtain ⟨first, later⟩ := List.nodup_cons.mp distinct
    rcases List.mem_cons.mp member with rfl | there
    · simp
    · have other : a ≠ pair.1 := by
        rintro rfl
        exact first (List.mem_map.mpr ⟨_, there, rfl⟩)
      rw [List.lookup_cons, beq_false_of_ne other]
      exact ih later there

namespace Grammar.Token

/-- Whether an IRI may be written as the token. -/
def isOfIri : Token → Bool
  | .reference _ | .name _ _ => true
  | _ => false

/-- Whether an IRI or a blank node may be written as the token. -/
def isOfSubject : Token → Bool
  | .blank _ => true
  | token => token.isOfIri

theorem isOfSubject_of_isOfIri {token : Token} (isOfIri : token.isOfIri) : token.isOfSubject := by
  cases token with
  | blank => rfl
  | _ => exact isOfIri

end Grammar.Token

namespace Namespaces

variable {n : Namespaces}

/-- The namespaces as they stand when all of them have been declared. -/
def declared (n : Namespaces) : List (List Char × List Char) :=
  (n.entries.map fun entry => (entry.1.toList, entry.2.toList)).reverse

theorem lookup_declared (named : n.IsWritable) {label ns : String}
    (member : (label, ns) ∈ n.entries) : n.declared.lookup label.toList = some ns.toList := by
  refine lookup_of_mem ?_ (List.mem_reverse.mpr (List.mem_map_of_mem member))
  rw [declared, List.map_reverse, List.nodup_reverse, List.map_map]
  have labels : (n.entries.map (Prod.fst ∘ fun entry => (entry.1.toList, entry.2.toList))) =
      (n.entries.map Prod.fst).map String.toList := by simp
  rw [labels]
  exact named.distinct.map fun _ _ => String.toList_injective

/-- The token of an IRI is the IRI as a reference, or a declared name for it. -/
theorem iriToken_cases (named : n.IsWritable) (iri : String) :
    n.iriToken iri = .reference iri.toList ∨ ∃ label ns member,
      n.iriToken iri = .name label member ∧ n.declared.lookup label = some ns ∧
      iri.toList = ns ++ member := by
  cases covered : cover? iri n.entries with
  | none => exact .inl (by rw [iriToken, covered])
  | some found =>
    obtain ⟨label, ns, tail⟩ := found
    cases safe : isSafeName tail with
    | false => exact .inl (by simp [iriToken, covered, safe])
    | true =>
      obtain ⟨member, whole⟩ := mem_of_cover? covered
      exact .inr ⟨_, _, _, by simp [iriToken, covered, safe], lookup_declared named member, whole⟩

theorem isOfIri_iriToken (iri : String) : (n.iriToken iri).isOfIri := by
  rw [iriToken]
  split
  · split <;> rfl
  · rfl

/-- A term that may be a subject has one token. -/
theorem exists_subjectToken {t : Term} (noLiteral : t.isLiteral = false) :
    ∃ token, n.termTokens t = [token] ∧ token.isOfSubject := by
  match t, noLiteral with
  | .blank label, _ => exact ⟨_, rfl, rfl⟩
  | .iri value, _ => exact ⟨_, rfl, Token.isOfSubject_of_isOfIri (n.isOfIri_iriToken value)⟩

end Namespaces

namespace Grammar.Cursor

/-! ## Productions by their first token -/

section Tokens
variable {r : Reading} {c : Cursor} {token : Token} {rest : List Token}

theorem resource?_of_isOfIri (isOfIri : token.isOfIri) : (c.moveTo (token :: rest)).resource? r =
    ((c.moveTo (token :: rest)).iri? r).map fun (value, c) => (.iri (String.ofList value), c) := by
  cases token with
  | reference | name => rfl
  | _ => cases isOfIri

theorem verb?_of_isOfIri (isOfIri : token.isOfIri) : (c.moveTo (token :: rest)).verb? r =
    ((c.moveTo (token :: rest)).iri? r).map fun (value, c) => (.iri (String.ofList value), c) := by
  cases token with
  | reference | name => rfl
  | _ => cases isOfIri

theorem startsVerb_of_isOfIri (isOfIri : token.isOfIri) :
    (c.moveTo (token :: rest)).startsVerb := by
  cases token with
  | reference | name => rfl
  | _ => cases isOfIri

/-- Such an object is no literal and has no triples of its own. -/
theorem object?_of_isOfSubject {fuel : Nat} (isOfSubject : token.isOfSubject) :
    object? r (fuel + 1) (c.moveTo (token :: rest)) = (c.moveTo (token :: rest)).resource? r := by
  cases token with
  | reference | name | blank => rw [object?]; rfl
  | _ => cases isOfSubject

/-- Such a subject opens no declaration and has no triples of its own. -/
theorem statement?_of_isOfSubject {fuel : Nat} (isOfSubject : token.isOfSubject) :
    statement? r fuel (c.moveTo (token :: rest)) =
      (((c.moveTo (token :: rest)).resource? r).bind fun (subject, c) =>
        predicates? r fuel subject c).bind (·.expect? '.') := by
  cases token with
  | reference | name | blank => rfl
  | _ => cases isOfSubject

end Tokens

variable {r : Reading} {n : Namespaces} (named : n.IsWritable) {c : Cursor}
  (names : c.names = n.declared) (rest : List Token)
include named names

/-! ## Terms -/

theorem iri?_iriToken {iri : String} (plain : isWritable iri.toList) :
    (c.moveTo (n.iriToken iri :: rest)).iri? r = some (iri.toList, c.moveTo rest) := by
  have absolute : isAbsolute iri.toList := (Bool.and_eq_true_iff.mp plain).1
  rcases n.iriToken_cases named iri with token | ⟨label, ns, member, token, declared, whole⟩
  · simp [token, Cursor.iri?, meaning?, absolute]
  · simp [token, Cursor.iri?, names, declared, whole]

theorem resource?_termTokens {t : Term} (writable : t.IsWritable turtle)
    (noLiteral : t.isLiteral = false) :
    (c.moveTo (n.termTokens t ++ rest)).resource? r = some (t, c.moveTo rest) := by
  match t, writable, noLiteral with
  | .blank label, _, _ => simp [Namespaces.termTokens, Cursor.resource?]
  | .iri value, writable, _ =>
    rw [Namespaces.termTokens, List.singleton_append,
      resource?_of_isOfIri (n.isOfIri_iriToken value), iri?_iriToken named names rest writable]
    simp

theorem literal?_termTokens {value : Literal} (normal : value.IsNormal) {d : Char} :
    (c.moveTo (n.termTokens (.literal value) ++ .mark d :: rest)).literal? r =
      some (.literal value, c.moveTo (.mark d :: rest)) := by
  match value, normal with
  | ⟨lexical, none, none⟩, _ => simp [Namespaces.termTokens, Cursor.literal?, Term.plain]
  | ⟨lexical, none, some tag⟩, normal =>
    simp [Namespaces.termTokens, Cursor.literal?, normal.taggedLiteral?_eq]
  | ⟨lexical, some datatype, none⟩, normal =>
    have read := iri?_iriToken (r := r) named names (.mark d :: rest)
      (normal.datatype datatype rfl).1
    simp [Namespaces.termTokens, Cursor.literal?, read, normal.typedLiteral_eq]
  | ⟨_, some _, some _⟩, normal => exact absurd normal.single (by simp)

theorem object?_termTokens {fuel : Nat} {t : Term} (writable : t.IsWritable turtle) {d : Char} :
    object? r (fuel + 1) (c.moveTo (n.termTokens t ++ .mark d :: rest)) =
      some (t, c.moveTo (.mark d :: rest)) := by
  have written (noLiteral : t.isLiteral = false) :
      object? r (fuel + 1) (c.moveTo (n.termTokens t ++ .mark d :: rest)) =
        some (t, c.moveTo (.mark d :: rest)) := by
    obtain ⟨token, only, isOfSubject⟩ := n.exists_subjectToken noLiteral
    have read := resource?_termTokens (r := r) named names (.mark d :: rest) writable noLiteral
    rw [only, List.singleton_append] at read ⊢
    rw [object?_of_isOfSubject isOfSubject, read]
  cases t with
  | blank | iri => exact written rfl
  | literal value =>
    have read := literal?_termTokens (r := r) named names rest (d := d) writable
    simp only [Namespaces.termTokens, List.cons_append] at read
    simp [Namespaces.termTokens, Cursor.object?, read]

theorem verb?_verbTokens {t : Term} (writable : t.IsWritable turtle) (isIri : t.isIri) :
    (c.moveTo (n.verbTokens t ++ rest)).startsVerb ∧
    (c.moveTo (n.verbTokens t ++ rest)).verb? r = some (t, c.moveTo rest) := by
  obtain ⟨value, rfl⟩ := Term.exists_iri_of_isIri isIri
  rw [Namespaces.verbTokens]
  split
  · next isType => exact ⟨rfl, by rw [isType]; rfl⟩
  · have isOfIri := n.isOfIri_iriToken value
    refine ⟨startsVerb_of_isOfIri isOfIri, ?_⟩
    rw [Namespaces.termTokens, List.singleton_append, verb?_of_isOfIri isOfIri,
      iri?_iriToken named names rest writable]
    simp

/-! ## Statements -/

omit named names in
/-- The cursor after more triples. -/
def add (c : Cursor) (triples : List Triple) : Cursor :=
  { c with found := triples.reverse ++ c.found }

omit named names in
@[simp] theorem add_add {one two : List Triple} : (c.add one).add two = c.add (one ++ two) := by
  simp [add]

omit named names in
/-- What continues an open statement starts with a semicolon or a full stop. -/
theorem exists_mark (subject : Term) (triples : List Triple) : ∃ d rest,
    n.statementTokens (some subject) triples = .mark d :: rest ∧ d ≠ ',' := by
  cases triples with
  | nil => exact ⟨_, _, rfl, by decide⟩
  | cons t triples =>
    rw [Namespaces.statementTokens, Namespaces.leadTokens]
    split
    · exact ⟨';', _, rfl, by decide⟩
    · exact ⟨'.', _, rfl, by decide⟩

/-- The predicate and the object of a triple, before what continues the open statement. -/
theorem predicates?_statementTokens (fuel : Nat) {t : Triple} (writable : t.IsWritable turtle)
    (triples : List Triple) :
    predicates? r (fuel + 3) t.subject (c.moveTo (n.verbTokens t.predicate ++
        (n.termTokens t.object ++ n.statementTokens (some t.subject) triples))) =
      further? r (fuel + 2) t.subject
        ((c.add [t]).moveTo (n.statementTokens (some t.subject) triples)) := by
  obtain ⟨d, rest, opened, noComma⟩ := exists_mark (n := n) t.subject triples
  have isIri := (Triple.isValid_iff.mp writable.isValid).1
  have object : objects? r (fuel + 2) t.subject t.predicate
      (c.moveTo (n.termTokens t.object ++ .mark d :: rest)) =
        some ((c.add [t]).moveTo (.mark d :: rest)) := by
    rw [objects?, object?_termTokens named names rest writable.object]
    simp [emit, add, moveTo, noComma]
  rw [opened, predicates?, (verb?_verbTokens named names _ writable.predicate isIri).2]
  simp [object]

/-- An open statement is read as far as its subject stays the same; what is left after its full stop
are statements of their own. -/
theorem further?_statementTokens {triples : List Triple} (subject : Term) (fuel : Nat)
    (writable : ∀ t ∈ triples, t.IsWritable turtle) (enough : 2 * triples.length + 2 ≤ fuel) :
    ∃ front back, triples = front ++ back ∧
      further? r fuel subject (c.moveTo (n.statementTokens (some subject) triples)) =
        some ((c.add front).moveTo (.mark '.' :: n.statementTokens none back)) := by
  induction triples generalizing c fuel with
  | nil =>
    obtain ⟨fuel, rfl⟩ := Nat.exists_eq_add_of_le' (show 1 ≤ fuel by omega)
    exact ⟨[], [], rfl, rfl⟩
  | cons t rest ih =>
    obtain ⟨here, later⟩ := List.forall_mem_cons.mp writable
    rw [List.length_cons] at enough
    by_cases same : subject = t.subject
    · subst same
      obtain ⟨fuel, rfl⟩ := Nat.exists_eq_add_of_le' (show 4 ≤ fuel by omega)
      have isIri := (Triple.isValid_iff.mp here.isValid).1
      obtain ⟨front, back, parts, read⟩ := ih (c := c.add [t]) names (fuel + 2) later
        (by omega)
      refine ⟨t :: front, back, by rw [parts, List.cons_append], ?_⟩
      have step := predicates?_statementTokens (r := r) named names fuel here rest
      rw [read] at step
      rw [n.statementTokens_same, further?]
      simp [(verb?_verbTokens (r := r) named names _ here.predicate isIri).1, step]
    · obtain ⟨fuel, rfl⟩ := Nat.exists_eq_add_of_le' (show 1 ≤ fuel by omega)
      refine ⟨[], t :: rest, rfl, ?_⟩
      rw [n.statementTokens_other same]
      rfl

/-- A statement that opens with a triple: its subject, and what follows. -/
theorem statement?_statementTokens {t : Triple} {triples : List Triple} (fuel : Nat)
    (writable : ∀ u ∈ t :: triples, u.IsWritable turtle) (enough : 2 * triples.length + 3 ≤ fuel) :
    ∃ front back, triples = front ++ back ∧
      statement? r fuel (c.moveTo (n.statementTokens none (t :: triples))) =
        some ((c.add (t :: front)).moveTo (n.statementTokens none back)) := by
  obtain ⟨here, later⟩ := List.forall_mem_cons.mp writable
  obtain ⟨fuel, rfl⟩ := Nat.exists_eq_add_of_le' (show 3 ≤ fuel by omega)
  obtain ⟨front, back, parts, read⟩ := further?_statementTokens (r := r) named (c := c.add [t])
    names t.subject (fuel + 2) later (by omega)
  refine ⟨front, back, parts, ?_⟩
  have step := predicates?_statementTokens (r := r) named names fuel here triples
  rw [read] at step
  have noLiteral := (Triple.isValid_iff.mp here.isValid).2
  have subject := resource?_termTokens (r := r) named names (n.verbTokens t.predicate ++
    (n.termTokens t.object ++ n.statementTokens (some t.subject) triples)) here.subject noLiteral
  obtain ⟨token, only, isOfSubject⟩ := n.exists_subjectToken noLiteral
  rw [only, List.singleton_append] at subject
  rw [n.statementTokens_first, only, List.singleton_append, statement?_of_isOfSubject isOfSubject, subject]
  simp [step, expect?]

/-- The statements of triples are read as these triples. -/
theorem statements?_statementTokens (triples : List Triple) (fuel : Nat)
    (writable : ∀ t ∈ triples, t.IsWritable turtle) (enough : 2 * triples.length + 2 ≤ fuel) :
    statements? r fuel (c.moveTo (n.statementTokens none triples)) =
      some ((c.add triples).moveTo []) := by
  -- What follows a statement has fewer triples, but not one less.
  obtain ⟨size, bound⟩ : ∃ size, triples.length ≤ size := ⟨_, Nat.le_refl _⟩
  induction size generalizing triples c fuel with
  | zero =>
    obtain rfl := List.eq_nil_of_length_eq_zero (Nat.le_zero.mp bound)
    obtain ⟨fuel, rfl⟩ := Nat.exists_eq_add_of_le' (show 1 ≤ fuel by omega)
    rfl
  | succ size ih =>
    obtain ⟨fuel, rfl⟩ := Nat.exists_eq_add_of_le' (show 1 ≤ fuel by omega)
    cases triples with
    | nil => rfl
    | cons t triples =>
      rw [List.length_cons] at enough bound
      obtain ⟨front, back, rfl, read⟩ := statement?_statementTokens (r := r) named names
        fuel writable (by omega)
      rw [List.length_append] at enough bound
      have occupied : n.statementTokens none (t :: (front ++ back)) ≠ [] := fun empty => by
        have size := n.length_le_statementTokens none (t :: (front ++ back))
        simp [empty] at size
      have rest := ih (c := c.add (t :: front)) names back fuel
        (fun u member => writable u (by simp [member])) (by omega) (by omega)
      rw [statements?]
      simp [occupied, read, rest]

omit named names in
/-- Declarations are read as the namespaces that they declare. -/
theorem statements?_declarations {entries : List (String × String)}
    (plain : ∀ entry ∈ entries, isWritable entry.2.toList) {fuel : Nat} :
    statements? r (fuel + entries.length)
        (c.moveTo (Namespaces.declarationTokens entries ++ rest)) =
      statements? r fuel ({ c with
        names := (Namespaces.declared ⟨entries⟩) ++ c.names }.moveTo rest) := by
  induction entries generalizing c with
  | nil => rfl
  | cons entry entries ih =>
    obtain ⟨here, later⟩ := List.forall_mem_cons.mp plain
    have absolute : isAbsolute entry.2.toList := (Bool.and_eq_true_iff.mp here).1
    have step : statement? r (fuel + entries.length)
        (c.moveTo (Namespaces.declarationTokens (entry :: entries) ++ rest)) =
          some ({ c with names := (entry.1.toList, entry.2.toList) :: c.names }.moveTo
            (Namespaces.declarationTokens entries ++ rest)) := by
      simp [Namespaces.declarationTokens, statement?, declareName?, meaning?, absolute, moveTo]
    rw [List.length_cons, ← Nat.add_assoc, statements?, step,
      if_neg (by simp [Namespaces.declarationTokens])]
    simp only [Option.bind_eq_bind, Option.bind_some, ih later]
    simp [Namespaces.declared]

end Grammar.Cursor

theorem Dataset.readTurtle?_text {d : Dataset} {n : Namespaces} (r : Reading)
    (writable : d.IsWritable Grammar.turtle) (named : n.IsWritable) :
    readTurtle? r (d.turtle n).toList = some (.ofGraph d.union) := by
  obtain ⟨statements, made⟩ : ∃ tokens, tokens = n.statementTokens none d.union.toList := ⟨_, rfl⟩
  obtain ⟨tokens, whole⟩ :
      ∃ tokens, tokens = Namespaces.declarationTokens n.entries ++ statements := ⟨_, rfl⟩
  -- A declaration takes one step of the reading, a triple two; both have tokens enough for that.
  have size : tokens.length = 4 * n.entries.length + statements.length := by
    rw [whole, List.length_append, Namespaces.length_declarationTokens]
  have enough : d.union.toList.length ≤ statements.length :=
    made ▸ n.length_le_statementTokens none _
  obtain ⟨fuel, steps⟩ : ∃ fuel, 4 * tokens.length + 4 = fuel + n.entries.length :=
    Nat.exists_eq_add_of_le' (by omega)
  let start : Cursor := { tokens := [], names := n.declared }
  have read : Cursor.statements? r (4 * tokens.length + 4) { tokens } =
      some ((start.add d.union.toList).moveTo []) := calc
    _ = Cursor.statements? r (fuel + n.entries.length) (Cursor.moveTo { tokens := [] }
          (Namespaces.declarationTokens n.entries ++ statements)) := by
        rw [steps, whole, Cursor.moveTo]
    _ = Cursor.statements? r fuel (start.moveTo statements) := by
        rw [Cursor.statements?_declarations _ named.isIri, List.append_nil]
    _ = some ((start.add d.union.toList).moveTo []) := by
        rw [made]
        exact Cursor.statements?_statementTokens named rfl _ _ writable.union (by omega)
  rw [readTurtle?, tokens?_turtle writable named, ← made, ← whole]
  simp [read, start, Cursor.add, Cursor.moveTo]

/-- The text of a dataset is read as the union of its graphs, whatever a reader makes of relative
references and of nodes without labels. -/
theorem Dataset.readTurtle?_turtle {d : Dataset} {n : Namespaces} (r : Reading)
    (writable : d.IsWritable Grammar.turtle) (named : n.IsWritable) :
    ∃ e, readTurtle? r (d.turtle n).toList = some e ∧
      (∀ t, t ∈ e.graph none ↔ ∃ name, t ∈ d.graph name) ∧
      ∀ name, name ≠ none → e.graph name = ∅ := by
  refine ⟨_, readTurtle?_text r writable named, fun t => ?_, fun name other => ?_⟩
  · rw [graph_ofGraph, if_pos rfl, mem_union]
  · rw [graph_ofGraph, if_neg other]

/-- A subject with a type, a datatype, a tag that is also a word of declarations, and a member that
is no safe name; and a blank node with full stops in its label. -/
def itemTriples : List Triple :=
  [⟨.iri "http://ex.org/a", .iri Rdf.type, .iri "http://ex.org/ns/Item"⟩,
    ⟨.iri "http://ex.org/a", .iri "http://ex.org/ns/size", .literal (.typed "\\n\"" Xsd.integer)⟩,
    ⟨.iri "http://ex.org/a", .iri "http://ex.org/ns/1st", .literal (.lang "one\r\ntwo" "prefix")⟩,
    ⟨.blank "0..b", .iri "http://ex.org/ns/", .plain ""⟩]

/-- The triples in two graphs that share one of them. -/
def items : Dataset :=
  (Dataset.ofGraph (.ofList (itemTriples.take 3))).setGraph (some (.blank "graph"))
    (.ofList (itemTriples.drop 2))

/-- Namespaces inside each other, with labels that start like words of the grammar or are empty. -/
def itemNames : Namespaces :=
  ⟨[("true.x", "http://ex.org/"), ("a", "http://ex.org/ns/"),
    ("", "http://www.w3.org/2001/XMLSchema#")]⟩

/-- The text of the two graphs is read as their four triples. -/
theorem Dataset.readTurtle?_turtle_items :
    items.IsWritable Grammar.turtle ∧ itemNames.IsWritable ∧
    ∃ e, readTurtle? ⟨fun _ reference => reference, fun _ => "node"⟩
        (items.turtle itemNames).toList = some e ∧
      (∀ t, t ∈ e.graph none ↔ ∃ name, t ∈ items.graph name) ∧
      ∀ name, name ≠ none → e.graph name = ∅ := by
  have each : ∀ t ∈ itemTriples, t.IsWritable Grammar.turtle := by decide
  have writable : items.IsWritable Grammar.turtle := fun name t member => by
    rw [items, graph_setGraph] at member
    split at member
    · exact each t (List.mem_of_mem_drop (SortedSet.mem_ofList.mp member))
    · rw [graph_ofGraph] at member
      split at member
      · exact each t (List.mem_of_mem_take (SortedSet.mem_ofList.mp member))
      · exact absurd member SortedSet.not_mem_empty
  have named : itemNames.IsWritable := ⟨by decide, by decide, by decide⟩
  exact ⟨writable, named, readTurtle?_turtle _ writable named⟩

end Formulary
