import Formulary.Dataset
import Formulary.Proofs.BlankScopes
import Formulary.Proofs.FiniteContent
import Formulary.Proofs.Relabelling

/-!
# Documents in one graph

What two documents become in a graph that they are brought into one after the other, each in a scope of
its own (`Dataset.scoped_imports_exact`). Each keeps its structure, since writing a scope before the
labels renames them injectively; ground triples are shared, and no others are, so that the graph has
as many triples as both documents less the ground ones that they have in common.
-/

namespace Formulary
open Std

/-! ## One document in a scope -/

section
variable {scope one two : String} {g h : Graph} {t : Triple}

theorem Term.inScope_eq_relabel (a : Term) : a.inScope scope = a.relabel (scope ++ ·) := by
  cases a <;> rfl

theorem Triple.inScope_eq_relabel (t : Triple) : t.inScope scope = t.relabel (scope ++ ·) := by
  rw [inScope, relabel, Term.inScope_eq_relabel, Term.inScope_eq_relabel]

namespace Graph

theorem mem_relabel_scope : t ∈ g.relabel (scope ++ ·) ↔ ∃ u ∈ g, u.inScope scope = t := by
  simp only [relabel, SortedSet.mem_map, Triple.inScope_eq_relabel]

theorem size_relabel_scope : (g.relabel (scope ++ ·)).size = g.size :=
  SortedSet.size_map (fun t u same => Triple.inScope_inj.mp
    (by rwa [Triple.inScope_eq_relabel, Triple.inScope_eq_relabel])) g

/-- The ground triples that two graphs have in common. -/
def sharedGround (g h : Graph) : Graph := g.filter fun t => !t.hasBlank && decide (t ∈ h)

theorem mem_sharedGround : t ∈ g.sharedGround h ↔ t.hasBlank = false ∧ t ∈ g ∧ t ∈ h := by
  simp only [sharedGround, SortedSet.mem_filter, Bool.and_eq_true, Bool.not_eq_true', decide_eq_true_eq]
  exact and_left_comm

/-- In scopes that are apart, two graphs have the ground triples in common that they had before. -/
theorem mem_sharedGround_iff (apart : ScopesApart one two) : t ∈ g.sharedGround h ↔
    t ∈ g.relabel (one ++ ·) ∧ t ∈ h.relabel (two ++ ·) := by
  rw [mem_sharedGround, mem_relabel_scope, mem_relabel_scope]
  cases kind : t.hasBlank with
  | false =>
    rw [Triple.exists_inScope_iff kind, Triple.exists_inScope_iff kind]
    exact and_iff_right rfl
  | true =>
    refine iff_of_false (fun shared => absurd shared.1 nofun) ?_
    rintro ⟨⟨u, -, rfl⟩, w, -, same⟩
    rw [Triple.hasBlank_inScope] at kind
    exact Triple.inScope_ne apart kind same.symm

end Graph

/-! ## Two documents in their scopes -/

namespace Dataset

variable {d other x y : Dataset} {name : GraphName}

theorem mem_graph_insertScoped_iff : t ∈ (d.insertScoped other name scope).graph name ↔
    t ∈ d.graph name ∨ t ∈ other.union.relabel (scope ++ ·) := by
  rw [mem_graph_insertScoped, Graph.mem_relabel_scope]
  simp only [mem_union]
  refine or_congr_right ⟨?_, ?_⟩
  · rintro ⟨place, s, member, same⟩
    exact ⟨s, ⟨place, member⟩, same⟩
  · rintro ⟨s, ⟨place, member⟩, same⟩
    exact ⟨place, s, member, same⟩

theorem graph_insertScoped_of_ne {place : GraphName} (apart : place ≠ name) :
    (d.insertScoped other name scope).graph place = d.graph place := by
  rw [insertScoped, insertMany, graph_setGraph, if_neg apart]

/-- Two documents are brought into one graph of a dataset, in scopes neither of which starts the other.
That graph gets the union of the graphs of each document with its blank nodes renamed injectively, and
nothing else; no triple with a blank node comes from both. If the graph was empty, it has in the end as
many triples as both documents have, less the ground ones that they share. All other graphs stay. -/
theorem scoped_imports_exact (d x y : Dataset) (name : GraphName)
    (first : ¬ one.toList <+: two.toList) (second : ¬ two.toList <+: one.toList) :
    Function.Injective (one ++ ·) ∧ Function.Injective (two ++ ·) ∧
    (∀ t, t ∈ ((d.insertScoped x name one).insertScoped y name two).graph name ↔
      t ∈ d.graph name ∨ t ∈ x.union.relabel (one ++ ·) ∨ t ∈ y.union.relabel (two ++ ·)) ∧
    (∀ t, t.hasBlank → t ∈ x.union.relabel (one ++ ·) → t ∉ y.union.relabel (two ++ ·)) ∧
    (d.graph name = ∅ →
      (((d.insertScoped x name one).insertScoped y name two).graph name).size +
        (x.union.sharedGround y.union).size = x.union.size + y.union.size) ∧
    ∀ place, place ≠ name →
      ((d.insertScoped x name one).insertScoped y name two).graph place = d.graph place := by
  have apart : ScopesApart one two := scopesApart_iff.mpr ⟨first, second⟩
  have injective : ∀ scope : String, Function.Injective (scope ++ ·) := fun scope a b same =>
    (String.append_right_inj scope).mp same
  have members : ∀ t, t ∈ ((d.insertScoped x name one).insertScoped y name two).graph name ↔
      t ∈ d.graph name ∨ t ∈ x.union.relabel (one ++ ·) ∨ t ∈ y.union.relabel (two ++ ·) := fun t => by
    rw [mem_graph_insertScoped_iff, mem_graph_insertScoped_iff, or_assoc]
  refine ⟨injective one, injective two, members, fun t blank here there => ?_, fun empty => ?_,
    fun place other => ?_⟩
  · have shared := (Graph.mem_sharedGround_iff apart).mpr ⟨here, there⟩
    exact absurd (blank.symm.trans (Graph.mem_sharedGround.mp shared).1) nofun
  · have either : ∀ t, t ∈ ((d.insertScoped x name one).insertScoped y name two).graph name ↔
        t ∈ x.union.relabel (one ++ ·) ∨ t ∈ y.union.relabel (two ++ ·) := fun t => by
      rw [members, empty, or_iff_right SortedSet.not_mem_empty]
    rw [SortedSet.size_union either fun t => Graph.mem_sharedGround_iff apart,
      Graph.size_relabel_scope, Graph.size_relabel_scope]
  · rw [graph_insertScoped_of_ne other, graph_insertScoped_of_ne other]

/-- A ground triple in both graphs, and a label that starts with the scope of the other document. -/
def clippings : Dataset :=
  (ofGraph (.ofList [⟨.blank "new_x", .iri "p", .blank "x"⟩,
    ⟨.iri "s", .iri "p", .plain "v"⟩])).setGraph (some (.iri "g"))
      (.ofList [⟨.iri "s", .iri "p", .plain "v"⟩])

/-- The same ground triple and another one, and labels the other way round. -/
def laterClippings : Dataset := ofGraph <| .ofList
  [⟨.blank "old_x", .iri "p", .blank "x"⟩, ⟨.iri "s", .iri "p", .plain "v"⟩,
    ⟨.iri "s", .iri "p", .plain "w"⟩]

/-- Of two and three triples, one is shared; the graphs that were there stay. -/
theorem scoped_imports_exact_clippings :
    ¬ "old_".toList <+: "new_".toList ∧ ¬ "new_".toList <+: "old_".toList ∧
    clippings.graph (some (.iri "h")) = ∅ ∧
    (((clippings.insertScoped clippings (some (.iri "h")) "old_").insertScoped
      laterClippings (some (.iri "h")) "new_").graph (some (.iri "h"))).size = 4 ∧
    ((clippings.insertScoped clippings (some (.iri "h")) "old_").insertScoped
      laterClippings (some (.iri "h")) "new_").graph none = clippings.graph none := by
  have first : ¬ "old_".toList <+: "new_".toList := by decide
  have second : ¬ "new_".toList <+: "old_".toList := by decide
  have empty : clippings.graph (some (.iri "h")) = ∅ := by decide
  obtain ⟨-, -, -, -, number, stay⟩ :=
    scoped_imports_exact clippings clippings laterClippings (some (.iri "h")) first second
  have shared : (clippings.union.sharedGround laterClippings.union).size = 1 := by decide
  have before : clippings.union.size = 2 := by decide
  have after : laterClippings.union.size = 3 := by decide
  have four := number empty
  rw [shared, before, after] at four
  exact ⟨first, second, empty, Nat.succ_injective four, stay none nofun⟩

end Dataset
end
end Formulary
