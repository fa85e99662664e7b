import Formulary.Document
import Formulary.Proofs.RdfXmlTriples
import Formulary.Proofs.TurtleTriples

/-!
# The triples of documents

Whatever its format, a document that can be read holds valid triples only
(`Document.isValid_of_read`).
-/

namespace Formulary

namespace NTriples
open Document

variable {room : Nat} {text rest : List Char}

theorem isLiteral_of_resource {t : Term} (made : resource? text = some (t, rest)) :
    t.isLiteral = false := by
  unfold resource? at made
  split at made
  · obtain ⟨⟨label, after⟩, -, made⟩ := Option.bind_eq_some_iff.mp made
    cases made
    rfl
  · obtain ⟨⟨value, after⟩, -, made⟩ := Option.bind_eq_some_iff.mp made
    cases made
    rfl

/-- A literal is read in the place of an object alone. -/
theorem isSubject_of_node {n : Node} (made : node? room false text = some (n, rest)) : n.isSubject := by
  unfold node? at made
  split at made
  · obtain ⟨_, -, made⟩ := Option.bind_eq_some_iff.mp made
    obtain ⟨_, -, made⟩ := Option.bind_eq_some_iff.mp made
    obtain ⟨_, -, made⟩ := Option.bind_eq_some_iff.mp made
    obtain ⟨_, -, made⟩ := Option.bind_eq_some_iff.mp made
    cases made
    rfl
  · cases made
  · cases made
  · obtain ⟨⟨t, after⟩, read, made⟩ := Option.bind_eq_some_iff.mp made
    cases made
    simp [Node.isSubject, isLiteral_of_resource read]

theorem isValid_of_parts {subject object : Node} {predicate : Term} {t : Triple}
    (read : parts? text = some (subject, predicate, object))
    (made : Node.triple subject predicate object = .ok t) : t.isValid := by
  rw [parts?] at read
  obtain ⟨⟨first, afterSubject⟩, isSubject, read⟩ := Option.bind_eq_some_iff.mp read
  obtain ⟨⟨value, afterPredicate⟩, -, read⟩ := Option.bind_eq_some_iff.mp read
  obtain ⟨⟨last, afterObject⟩, -, read⟩ := Option.bind_eq_some_iff.mp read
  obtain ⟨_, -, read⟩ := Option.bind_eq_some_iff.mp read
  obtain ⟨-, read⟩ := Option.ite_none_right_eq_some.mp read
  cases read
  exact Node.isValid_of_triple (isSubject_of_node isSubject) rfl made

theorem isValid_of_line {t : Triple} (made : lineTriple text = .ok (some t)) : t.isValid := by
  rw [lineTriple] at made
  split at made
  · cases made
  · split at made
    case h_1 subject predicate object read =>
      obtain ⟨u, triple, same⟩ := map_eq_ok.mp made
      cases same
      exact isValid_of_parts read triple
    case h_2 => cases made

theorem isValid_of_read {found : Graph} (made : read text = .ok found) : ∀ t ∈ found, t.isValid := by
  obtain ⟨lines, mapped, made⟩ := bind_eq_ok.mp made
  cases made
  intro t member
  obtain ⟨line, there, rfl⟩ := List.mem_filterMap.mp (SortedSet.mem_ofList.mp member)
  obtain ⟨text, -, read⟩ := ((mapM_eq_ok mapped).2 _).mp there
  exact isValid_of_line read

end NTriples

/-- A document holds valid triples only. -/
theorem Document.isValid_of_read {format : Format} {text : String} {d : Dataset}
    (made : Document.read format text = .ok d) : ∀ t ∈ d.graph none, t.isValid := by
  rw [Document.read] at made
  split at made
  case h_1 found read =>
    cases made
    rw [Dataset.graph_ofGraph, if_pos rfl]
    cases format with
    | nTriples => exact NTriples.isValid_of_read read
    | turtle => exact Turtle.isValid_of_read read
    | rdfXml => exact RdfXml.isValid_of_read read
  case h_2 => cases made

end Formulary
