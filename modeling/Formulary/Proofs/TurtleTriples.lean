import Formulary.Proofs.Failure
import Formulary.Turtle.Reader

/-!
# The triples of Turtle documents

A Turtle document holds valid triples only (`Turtle.isValid_of_read`): the grammar asks for an IRI as
a predicate, and every part of it that may be a subject is an IRI or a node without a name. Literals
are read in the place of objects alone.
-/

namespace Formulary
open Document

/-- Whether a triple may have the node for its subject. -/
def Document.Node.isSubject : Node → Bool
  | .term t => !t.isLiteral
  | .quoted => true

theorem Document.Node.isValid_of_triple {subject object : Node} {predicate : Term} {t : Triple}
    (isSubject : subject.isSubject) (isIri : predicate.isIri)
    (made : Node.triple subject predicate object = .ok t) : t.isValid := by
  rcases subject with s | _ <;> rcases object with o | _ <;> cases made
  exact Bool.and_eq_true_iff.mpr ⟨isIri, isSubject⟩

namespace Turtle

/-- The triples so far are valid. -/
def Cursor.Valid (c : Cursor) : Prop := ∀ t ∈ c.found, t.isValid

namespace Cursor

variable {α : Type} {c next : Cursor}

/-! ## Terms -/

theorem Valid.moveTo {text : List Char} (valid : c.Valid) : (c.moveTo text).Valid := valid

theorem Valid.fresh (valid : c.Valid) : c.fresh.2.Valid := valid

theorem Valid.take {read : Option (α × List Char)} {value : α} (valid : c.Valid)
    (made : c.take read = .ok (value, next)) : next.Valid := by
  rcases read with _ | ⟨_, _⟩ <;> cases made
  exact valid

theorem Valid.expect {mark : List Char} (valid : c.Valid) (made : c.expect mark = .ok next) :
    next.Valid := by
  rw [Cursor.expect] at made
  split at made <;> cases made
  exact valid

theorem Valid.reference {value : List Char} (valid : c.Valid)
    (made : c.reference = .ok (value, next)) : next.Valid := by
  rw [Cursor.reference] at made
  split at made
  · obtain ⟨⟨ref, after⟩, taken, made⟩ := bind_eq_ok.mp made
    dsimp only at made
    split at made <;> cases made
    exact valid.take taken
  · cases made

theorem Valid.iri {value : List Char} (valid : c.Valid) (made : c.iri = .ok (value, next)) :
    next.Valid := by
  rw [Cursor.iri] at made
  split at made
  · exact valid.reference made
  · obtain ⟨⟨⟨label, member⟩, after⟩, taken, made⟩ := bind_eq_ok.mp made
    dsimp only at made
    split at made <;> cases made
    exact valid.take taken

/-- A predicate is an IRI. -/
theorem Valid.verb {predicate : Term} (valid : c.Valid) (made : c.verb = .ok (predicate, next)) :
    predicate.isIri ∧ next.Valid := by
  rw [Cursor.verb] at made
  split at made
  · cases made
    exact ⟨rfl, valid⟩
  · obtain ⟨⟨value, after⟩, read, made⟩ := bind_eq_ok.mp made
    cases made
    exact ⟨rfl, valid.iri read⟩

theorem Valid.annotated {lexical : List Char} {t : Term} (valid : c.Valid)
    (made : c.annotated lexical = .ok (t, next)) : next.Valid := by
  rw [Cursor.annotated] at made
  split at made
  · dsimp only at made
    split at made <;> cases made
    exact valid
  · obtain ⟨marked, expected, made⟩ := bind_eq_ok.mp made
    obtain ⟨⟨datatype, after⟩, read, made⟩ := bind_eq_ok.mp made
    cases made
    refine (Valid.expect ?_ expected).iri read
    exact valid
  · cases made
    exact valid

/-- What has no mark of a literal is an IRI or a blank node. -/
theorem Valid.resource {t : Term} (valid : c.Valid) (made : c.resource = .ok (t, next)) :
    t.isLiteral = false ∧ next.Valid := by
  rw [Cursor.resource] at made
  split at made
  · obtain ⟨⟨label, after⟩, taken, made⟩ := bind_eq_ok.mp made
    cases made
    exact ⟨rfl, valid.take taken⟩
  · split at made
    · cases made
      exact ⟨rfl, valid⟩
    · obtain ⟨⟨value, after⟩, read, made⟩ := bind_eq_ok.mp made
      cases made
      exact ⟨rfl, valid.iri read⟩

theorem Valid.atom {t : Term} (valid : c.Valid) (made : c.atom = .ok (t, next)) : next.Valid := by
  rw [Cursor.atom] at made
  split at made
  · cases made
  · split at made
    · obtain ⟨⟨lexical, after⟩, taken, made⟩ := bind_eq_ok.mp made
      exact (valid.take taken).annotated made
    · split at made
      · obtain ⟨⟨⟨lexical, datatype⟩, after⟩, taken, made⟩ := bind_eq_ok.mp made
        cases made
        exact valid.take taken
      · split at made
        · cases made
          exact valid
        · exact (valid.resource made).2

theorem Valid.quotedEnd {more : Cursor → Except Fault Cursor}
    {term : Cursor → Except Fault (Term × Cursor)} (valid : c.Valid)
    (inner : ∀ {c next : Cursor}, c.Valid → more c = .ok next → next.Valid)
    (plain : ∀ {c next : Cursor} {t : Term}, c.Valid → term c = .ok (t, next) → next.Valid)
    (made : c.quotedEnd more term = .ok next) : next.Valid := by
  rw [Cursor.quotedEnd] at made
  split at made
  · exact inner valid.moveTo made
  · obtain ⟨⟨t, after⟩, read, rfl⟩ := map_eq_ok.mp made
    exact plain valid read

theorem Valid.quotedTriple {more : Cursor → Except Fault Cursor} (valid : c.Valid)
    (inner : ∀ {c next : Cursor}, c.Valid → more c = .ok next → next.Valid)
    (made : c.quotedTriple more = .ok next) : next.Valid := by
  obtain ⟨afterSubject, subject, made⟩ := bind_eq_ok.mp made
  obtain ⟨⟨predicate, afterVerb⟩, verb, made⟩ := bind_eq_ok.mp made
  obtain ⟨afterObject, object, made⟩ := bind_eq_ok.mp made
  have valid := valid.quotedEnd inner (fun valid made => (valid.resource made).2) subject
  have valid := (valid.verb verb).2.quotedEnd inner Valid.atom object
  exact valid.expect made

/-- No triple comes of a quoted one. -/
theorem Valid.quoted {room : Nat} (valid : c.Valid) (made : quoted room c = .ok next) :
    next.Valid := by
  induction room generalizing c next with
  | zero => exact valid.quotedTriple (fun _ failed => by cases failed) made
  | succ room ih => exact valid.quotedTriple ih made

theorem Valid.emit {subject object : Node} {predicate : Term} (valid : c.Valid)
    (isSubject : subject.isSubject) (isIri : predicate.isIri)
    (made : c.emit subject predicate object = .ok next) : next.Valid := by
  obtain ⟨t, triple, made⟩ := bind_eq_ok.mp made
  cases made
  exact List.forall_mem_cons.mpr ⟨Node.isValid_of_triple isSubject isIri triple, valid⟩

/-! ## Nested parts -/

/-- The text of a part that holds others: properties, a collection or a quoted triple. -/
def Opens (text : List Char) : Prop :=
  ∃ rest, text = '[' :: rest ∨ text = '(' :: rest ∨ text = '<' :: '<' :: rest

/-- The parts that nest in each other keep the triples valid, as far as so many steps reach. -/
structure Sound (fuel : Nat) : Prop where
  node {room : Nat} {c next : Cursor} {n : Node} : c.Valid →
    node fuel room c = .ok (n, next) → (Opens c.text → n.isSubject) ∧ next.Valid
  elements {room : Nat} {c next : Cursor} {head : Term} : c.Valid →
    elements fuel room c = .ok (head, next) → head.isLiteral = false ∧ next.Valid
  properties {room : Nat} {subject : Node} {c next : Cursor} : c.Valid → subject.isSubject →
    properties fuel room subject c = .ok next → next.Valid
  objects {room : Nat} {subject : Node} {predicate : Term} {c next : Cursor} : c.Valid →
    subject.isSubject → predicate.isIri → objects fuel room subject predicate c = .ok next →
    next.Valid
  predicates {room : Nat} {subject : Node} {c next : Cursor} : c.Valid → subject.isSubject →
    predicates fuel room subject c = .ok next → next.Valid
  further {room : Nat} {subject : Node} {c next : Cursor} : c.Valid → subject.isSubject →
    further fuel room subject c = .ok next → next.Valid

namespace Sound

variable {fuel room : Nat} {subject : Node} (sound : Sound fuel) (valid : c.Valid)
include sound valid

theorem node_succ {n : Node} (made : Cursor.node (fuel + 1) room c = .ok (n, next)) :
    (Opens c.text → n.isSubject) ∧ next.Valid := by
  unfold Cursor.node at made
  split at made
  · obtain ⟨after, quoted, made⟩ := bind_eq_ok.mp made
    cases made
    exact ⟨fun _ => rfl, valid.moveTo.quoted quoted⟩
  · cases made
  · split at made
    · cases made
      exact ⟨fun _ => rfl, valid⟩
    · split at made
      · obtain ⟨after, properties, made⟩ := bind_eq_ok.mp made
        cases made
        exact ⟨fun _ => rfl, sound.properties valid.moveTo.fresh rfl properties⟩
      · cases made
  · obtain ⟨⟨head, after⟩, elements, made⟩ := bind_eq_ok.mp made
    cases made
    obtain ⟨isHead, valid⟩ := sound.elements valid.moveTo elements
    exact ⟨fun _ => by simp [Node.isSubject, isHead], valid⟩
  · cases made
  · next room _ _ noBracket noQuoted noQuotedDeep noList noListDeep =>
    obtain ⟨⟨t, after⟩, atom, made⟩ := bind_eq_ok.mp made
    cases made
    refine ⟨?_, valid.atom atom⟩
    -- Nothing that opens a nested part is left to the atoms, with room for the part or without.
    rintro ⟨rest, opens | opens | opens⟩
    · exact (noBracket _ opens).elim
    · cases room with
      | zero => exact (noListDeep _ opens rfl).elim
      | succ room => exact (noList _ _ opens rfl).elim
    · cases room with
      | zero => exact (noQuotedDeep _ opens rfl).elim
      | succ room => exact (noQuoted _ _ opens rfl).elim

theorem elements_succ {head : Term} (made : Cursor.elements (fuel + 1) room c = .ok (head, next)) :
    head.isLiteral = false ∧ next.Valid := by
  rw [Cursor.elements] at made
  split at made
  · cases made
    exact ⟨rfl, valid⟩
  · obtain ⟨⟨element, afterElement⟩, first, made⟩ := bind_eq_ok.mp made
    obtain ⟨afterFirst, emitFirst, made⟩ := bind_eq_ok.mp made
    obtain ⟨⟨rest, afterRest⟩, elements, made⟩ := bind_eq_ok.mp made
    obtain ⟨last, emitRest, made⟩ := bind_eq_ok.mp made
    cases made
    have valid := (sound.node valid.fresh first).2
    have valid := (sound.elements (valid.emit rfl rfl emitFirst) elements).2
    exact ⟨rfl, valid.emit rfl rfl emitRest⟩

variable (isSubject : subject.isSubject)
include isSubject

theorem properties_succ (made : Cursor.properties (fuel + 1) room subject c = .ok next) :
    next.Valid := by
  rw [Cursor.properties] at made
  obtain ⟨after, predicates, made⟩ := bind_eq_ok.mp made
  have valid := sound.predicates valid isSubject predicates
  split at made
  · cases made
    exact valid
  · exact sound.properties valid isSubject made

theorem predicates_succ (made : Cursor.predicates (fuel + 1) room subject c = .ok next) :
    next.Valid := by
  rw [Cursor.predicates] at made
  obtain ⟨⟨predicate, afterVerb⟩, verb, made⟩ := bind_eq_ok.mp made
  obtain ⟨after, objects, made⟩ := bind_eq_ok.mp made
  obtain ⟨isIri, valid⟩ := valid.verb verb
  have valid := sound.objects valid isSubject isIri objects
  split at made
  · exact sound.further valid.moveTo isSubject made
  · cases made
    exact valid

theorem further_succ (made : Cursor.further (fuel + 1) room subject c = .ok next) :
    next.Valid := by
  rw [Cursor.further] at made
  split at made
  case h_1 => exact sound.further valid.moveTo isSubject made
  case h_7 => exact sound.predicates valid isSubject made
  all_goals
    cases made
    exact valid

theorem objects_succ {predicate : Term} (isIri : predicate.isIri)
    (made : Cursor.objects (fuel + 1) room subject predicate c = .ok next) : next.Valid := by
  rw [Cursor.objects] at made
  obtain ⟨⟨object, afterNode⟩, node, made⟩ := bind_eq_ok.mp made
  obtain ⟨afterEmit, emit, made⟩ := bind_eq_ok.mp made
  have valid := (sound.node valid node).2.emit isSubject isIri emit
  dsimp only at made
  split at made
  · obtain ⟨afterRemarks, remarks, made⟩ := bind_eq_ok.mp made
    obtain ⟨after, expected, made⟩ := bind_eq_ok.mp made
    have valid := (sound.predicates valid.moveTo rfl remarks).expect expected
    split at made
    · exact sound.objects valid.moveTo isSubject isIri made
    · cases made
      exact valid
  · cases made
  · obtain ⟨after, same, made⟩ := bind_eq_ok.mp made
    cases same
    split at made
    · exact sound.objects valid.moveTo isSubject isIri made
    · cases made
      exact valid

end Sound

theorem sound (fuel : Nat) : Sound fuel := by
  induction fuel with
  | zero =>
    constructor <;> intros <;>
      simp_all [Cursor.node, Cursor.elements, Cursor.properties, Cursor.objects, Cursor.predicates,
        Cursor.further]
  | succ fuel ih => exact {
      node := fun valid => ih.node_succ valid
      elements := fun valid => ih.elements_succ valid
      properties := ih.properties_succ
      objects := fun valid isSubject isIri => ih.objects_succ valid isSubject isIri
      predicates := ih.predicates_succ
      further := ih.further_succ }

/-! ## Statements -/

theorem Valid.triples {fuel : Nat} (valid : c.Valid) (made : c.triples fuel = .ok next) :
    next.Valid := by
  have opened : ∀ {subject : Node} {after : Cursor}, Opens c.text →
      node fuel depthLimit c = .ok (subject, after) → subject.isSubject ∧ after.Valid :=
    fun opens read => ((sound fuel).node valid read).imp_left fun isSubject => isSubject opens
  rw [Cursor.triples] at made
  split at made
  · obtain ⟨⟨subject, after⟩, read, made⟩ := bind_eq_ok.mp made
    obtain ⟨isSubject, valid⟩ := opened ⟨_, .inl ‹_›⟩ read
    dsimp only at made
    split at made
    · cases made
      exact valid
    · exact (sound fuel).predicates valid isSubject made
  · obtain ⟨⟨subject, after⟩, read, made⟩ := bind_eq_ok.mp made
    obtain ⟨isSubject, valid⟩ := opened ⟨_, .inr (.inr ‹_›)⟩ read
    exact (sound fuel).predicates valid isSubject made
  · obtain ⟨⟨subject, after⟩, read, made⟩ := bind_eq_ok.mp made
    obtain ⟨isSubject, valid⟩ := opened ⟨_, .inr (.inl ‹_›)⟩ read
    exact (sound fuel).predicates valid isSubject made
  · obtain ⟨⟨subject, after⟩, read, made⟩ := bind_eq_ok.mp made
    obtain ⟨notLiteral, valid⟩ := valid.resource read
    exact (sound fuel).predicates valid (by simp [Node.isSubject, notLiteral]) made

theorem Valid.declareName (valid : c.Valid) (made : c.declareName = .ok next) : next.Valid := by
  obtain ⟨⟨label, afterLabel⟩, taken, made⟩ := bind_eq_ok.mp made
  obtain ⟨⟨ns, after⟩, read, made⟩ := bind_eq_ok.mp made
  cases made
  have valid : after.Valid := (valid.take taken).reference read
  exact valid

theorem Valid.declareBase (valid : c.Valid) (made : c.declareBase = .ok next) : next.Valid := by
  obtain ⟨⟨base, after⟩, read, made⟩ := bind_eq_ok.mp made
  cases made
  have valid : after.Valid := valid.reference read
  exact valid

theorem Valid.statement {fuel : Nat} (valid : c.Valid) (made : c.statement fuel = .ok next) :
    next.Valid := by
  rw [Cursor.statement] at made
  split at made
  · obtain ⟨after, declared, made⟩ := bind_eq_ok.mp made
    exact (valid.moveTo.declareName declared).expect made
  · obtain ⟨after, declared, made⟩ := bind_eq_ok.mp made
    exact (valid.moveTo.declareBase declared).expect made
  · split at made
    · exact valid.moveTo.declareBase made
    · exact valid.moveTo.declareName made
    · obtain ⟨after, triples, made⟩ := bind_eq_ok.mp made
      exact (valid.triples triples).expect made

theorem Valid.statements {fuel : Nat} (valid : c.Valid) (made : c.statements fuel = .ok next) :
    next.Valid := by
  induction fuel generalizing c with
  | zero =>
    rw [Cursor.statements] at made
    split at made <;> cases made
    exact valid
  | succ fuel ih =>
    rw [Cursor.statements] at made
    split at made
    · cases made
      exact valid
    · obtain ⟨after, statement, made⟩ := bind_eq_ok.mp made
      exact ih (valid.statement statement) made

end Cursor

/-- All triples of a document are valid. -/
theorem isValid_of_read {text : List Char} {found : Graph} (made : read text = .ok found) :
    ∀ t ∈ found, t.isValid := by
  obtain ⟨c, statements, made⟩ := bind_eq_ok.mp made
  cases made
  have start : Cursor.Valid { text := Terminal.skip text, relabel := apartLabel } :=
    fun t none => absurd none List.not_mem_nil
  have valid := start.statements statements
  intro t member
  rw [SortedSet.mem_ofList, List.mem_reverse] at member
  exact valid t member

end Turtle
end Formulary
