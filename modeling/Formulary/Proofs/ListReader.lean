import Formulary.Proofs.Reachability
import Formulary.Resolution.Cell

/-!
# Reading a path list

The direct way to read the path of a field: take its list cell by cell, decode the element of each
cell, and stop at `rdf:nil` or at the first defect. Nothing is asked about the other fields, and the
cells seen so far are those of this list alone.
-/

namespace Formulary
open Std Relation

namespace Graph

/-- The triples about a term. -/
def about (g : Graph) (subject : Term) : List Triple := g.toList.filter (·.subject == subject)

/-- The step that an element stands for. -/
def stepOf (g : Graph) : Term → Except Defect Step
  | .iri value => .ok (.forward (.iri value))
  | .literal value => .error (.unresolvable (.literal value))
  | .blank label =>
    match g.about (.blank label) with
    | [] => .error (.unresolvable (.blank label))
    | [t] =>
      if t.predicate = .iri Sh.inversePath ∧ t.object.isIri then .ok (.inverse t.object)
      else .error (.unresolvable (.blank label))
    | _ :: _ :: _ => .error (.ambiguous (.blank label))

/-- The step of a cell; nothing if the cell has no element. -/
def decode? (g : Graph) (cell : Term) : Option (Except Defect Step) :=
  match g.objects cell (.iri Rdf.first) with
  | [] => none
  | [element] => some (g.stepOf element)
  | _ :: _ :: _ => some (.error (.ambiguous cell))

variable {g : Graph} {cell next : Term} {seen : SortedSet Term}

theorem mem_about {subject : Term} {t : Triple} : t ∈ g.about subject ↔ t ∈ g ∧ t.subject = subject := by
  rw [about, List.mem_filter, SortedSet.mem_toList, beq_iff_eq]

theorem objects_eq_singleton_iff {subject predicate object : Term} :
    g.objects subject predicate = [object] ↔ ∀ b, g.Edge predicate subject b ↔ b = object := by
  rw [eq_singleton_iff_of_nodup nodup_objects]
  simp only [mem_objects]

theorem about_eq_singleton_iff {subject : Term} {t : Triple} :
    g.about subject = [t] ↔ ∀ u, u ∈ g ∧ u.subject = subject ↔ u = t := by
  have nodup : (g.about subject).Nodup := g.nodup_toList.filter _
  rw [eq_singleton_iff_of_nodup nodup]
  simp only [mem_about]

theorem edge_of_head? {predicate : Term} (found : (g.objects cell predicate).head? = some next) :
    g.Edge predicate cell next := mem_objects.mp (List.mem_of_mem_head? found)

/-- A new object that is seen leaves fewer objects unseen. -/
theorem card_unseen_insert_lt {predicate : Term} (edge : g.Edge predicate cell next)
    (fresh : next ∉ seen) : (g.unseen (seen.insert next)).card < (g.unseen seen).card := by
  refine Finset.card_lt_card ⟨fun a left => ?_, fun within => ?_⟩
  · obtain ⟨object, unseen⟩ := mem_unseen.mp left
    exact mem_unseen.mpr ⟨object, fun old => unseen (SortedSet.mem_insert.mpr (.inr old))⟩
  · have left : next ∈ g.unseen (seen.insert next) := within (mem_unseen.mpr ⟨⟨_, edge, rfl⟩, fresh⟩)
    exact (mem_unseen.mp left).2 (SortedSet.mem_insert.mpr (.inl rfl))

/-- The steps after a cell. -/
def readFrom (g : Graph) (seen : SortedSet Term) (cell : Term) : Except Defect Chain :=
  match _ : (g.objects cell (.iri Rdf.rest)).head? with
  | none => .error .unterminated
  | some next =>
    if next = .iri Rdf.nil then .ok []
    else if _ : next ∈ seen then .error .cycle
    else
      match g.decode? next with
      | none => .error .unterminated
      | some (.error defect) => .error defect
      | some (.ok step) => (step :: ·) <$> g.readFrom (seen.insert next) next
termination_by (g.unseen seen).card
decreasing_by exact card_unseen_insert_lt (edge_of_head? ‹_›) ‹_›

/-- The steps of a list. -/
def readList (g : Graph) (cell : Term) : Except Defect Chain :=
  match g.decode? cell with
  | none => .error .missingHead
  | some (.error defect) => .error defect
  | some (.ok step) => (step :: ·) <$> g.readFrom (.ofList [cell]) cell

/-- The steps of the path of a field. -/
def readPath (g : Graph) (field : Term) : Except Defect Chain :=
  match g.objects field (.iri Sh.path) with
  | [.iri predicate] => .ok [.forward (.iri predicate)]
  | [.blank label] => g.readList (.blank label)
  | [.literal _] => .error .notAPath
  | _ => .error (.ambiguous field)

/-- From a cell on, no cell has two cells after it. -/
def Unbranched (g : Graph) (cell : Term) : Prop :=
  ∀ later, ReflTransGen (g.Edge (.iri Rdf.rest)) cell later →
    ∀ a b, g.Edge (.iri Rdf.rest) later a → g.Edge (.iri Rdf.rest) later b → a = b

theorem Unbranched.later (unbranched : g.Unbranched cell)
    (path : ReflTransGen (g.Edge (.iri Rdf.rest)) cell next) : g.Unbranched next :=
  fun later beyond => unbranched later (path.trans beyond)

/-! ## The reader at one cell -/

theorem readFrom_last (last : ∀ next, ¬ g.Edge (.iri Rdf.rest) cell next) :
    g.readFrom seen cell = .error .unterminated := by
  have none : (g.objects cell (.iri Rdf.rest)).head? = none :=
    List.head?_eq_none_iff.mpr (List.eq_nil_iff_forall_not_mem.mpr fun next member =>
      last next (mem_objects.mp member))
  rw [readFrom]
  split
  · rfl
  · rename_i next found
    exact absurd (none.symm.trans found) nofun

theorem readFrom_next (unbranched : g.Unbranched cell) (edge : g.Edge (.iri Rdf.rest) cell next) :
    g.readFrom seen cell =
      if next = .iri Rdf.nil then .ok []
      else if next ∈ seen then .error .cycle
      else
        match g.decode? next with
        | none => .error .unterminated
        | some (.error defect) => .error defect
        | some (.ok step) => (step :: ·) <$> g.readFrom (seen.insert next) next := by
  rw [readFrom]
  split
  · rename_i none
    rw [List.head?_eq_none_iff] at none
    exact absurd (mem_objects.mpr edge) (none ▸ List.not_mem_nil)
  · rename_i other found
    obtain rfl : next = other := unbranched cell .refl next other edge (edge_of_head? found)
    simp only [dite_eq_ite]

end Graph
end Formulary
