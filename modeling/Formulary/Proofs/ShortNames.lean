import Formulary.Proofs.TurtleRoundTrip

/-!
# What short names denote

A short name is made under the longest namespace that covers an IRI, and read under the namespace
that its label was declared for last. Whenever an IRI is shortened, what follows the label is a local
part as the grammar has it, and the name is read as an IRI; it is read as the shortened one exactly
when the label is not declared again after the declaration that was chosen
(`Namespaces.compact?_expands`).
-/

namespace Formulary
open Grammar

namespace Namespaces

variable {n : Namespaces} {iri label ns : String} {tail : List Char} {entries : List (String × String)}

/-! ## The chosen declaration -/

/-- The namespace is not empty, and the IRI starts with it. -/
def Covers (ns iri : String) : Prop := ns ≠ "" ∧ ns.toList <+: iri.toList

theorem covers_of_member? (found : member? ns iri = some tail) : Covers ns iri := by
  obtain ⟨occupied, cut⟩ := Option.ite_none_left_eq_some.mp found
  exact ⟨occupied, tail, (after?_eq_some_iff.mp cut).symm⟩

theorem not_covers_of_member? (missing : member? ns iri = none) : ¬ Covers ns iri := by
  rintro ⟨occupied, tail, whole⟩
  rw [member?, if_neg occupied, after?_eq_some_iff.mpr whole.symm] at missing
  cases missing

theorem not_covers_of_cover? (missing : cover? iri entries = none) :
    ∀ entry ∈ entries, ¬ Covers entry.2 iri := by
  induction entries with
  | nil => nofun
  | cons entry rest ih =>
    rw [cover?] at missing
    split at missing
    · cases missing
    · split at missing <;> cases missing
    · next here => exact List.forall_mem_cons.mpr ⟨not_covers_of_member? here, ih missing⟩

/-- The chosen declaration among all: it covers the IRI, no covering namespace before it is longer,
and all covering ones after it are shorter. -/
structure IsChosen (iri : String) (before : List (String × String)) (entry : String × String)
    (after : List (String × String)) : Prop where
  covers : Covers entry.2 iri
  before : ∀ other ∈ before, Covers other.2 iri → other.2.length ≤ entry.2.length
  after : ∀ other ∈ after, Covers other.2 iri → other.2.length < entry.2.length

namespace IsChosen

variable {before after : List (String × String)} {entry first : String × String}

theorem length_le (chosen : IsChosen iri before entry after) :
    ∀ other ∈ before ++ entry :: after, Covers other.2 iri → other.2.length ≤ entry.2.length := by
  intro other member covers
  rcases List.mem_append.mp member with earlier | here
  · exact chosen.before other earlier covers
  · rcases List.mem_cons.mp here with rfl | later
    · exact Nat.le_refl _
    · exact Nat.le_of_lt (chosen.after other later covers)

theorem cons (chosen : IsChosen iri before entry after)
    (shorter : Covers first.2 iri → first.2.length ≤ entry.2.length) :
    IsChosen iri (first :: before) entry after where
  covers := chosen.covers
  before := List.forall_mem_cons.mpr ⟨shorter, chosen.before⟩
  after := chosen.after

/-- The chosen declaration is not repeated. -/
theorem not_mem_after (chosen : IsChosen iri before entry after) : entry ∉ after := fun again =>
  Nat.lt_irrefl _ (chosen.after entry again chosen.covers)

end IsChosen

/-- A declaration before all others is chosen where the covering ones after it are shorter. -/
theorem IsChosen.first {entry : String × String} (covers : Covers entry.2 iri)
    (shorter : ∀ other ∈ entries, Covers other.2 iri → other.2.length < entry.2.length) :
    IsChosen iri [] entry entries where
  covers := covers
  before _ member := absurd member List.not_mem_nil
  after := shorter

theorem exists_isChosen (covered : cover? iri entries = some (label, ns, tail)) :
    ∃ before after, entries = before ++ (label, ns) :: after ∧
      IsChosen iri before (label, ns) after := by
  induction entries generalizing label ns tail with
  | nil => cases covered
  | cons entry rest ih =>
    obtain ⟨first, space⟩ := entry
    rw [cover?] at covered
    split at covered
    · next found none =>
      cases covered
      exact ⟨[], rest, rfl, .first (covers_of_member? found) fun other member covers =>
        absurd covers (not_covers_of_cover? none other member)⟩
    · next tail' later found more =>
      obtain ⟨before, after, whole, chosen⟩ := ih more
      split at covered
      · next longer =>
        cases covered
        refine ⟨[], rest, rfl, .first (covers_of_member? found) fun other member covers => ?_⟩
        exact Nat.lt_of_le_of_lt (chosen.length_le other (whole ▸ member) covers) longer
      · next notLonger =>
        obtain rfl := Option.some.inj covered
        exact ⟨(first, space) :: before, after, by rw [whole, List.cons_append],
          chosen.cons fun _ => Nat.le_of_not_lt notLonger⟩
    · next missing =>
      obtain ⟨before, after, whole, chosen⟩ := ih covered
      exact ⟨(first, space) :: before, after, by rw [whole, List.cons_append],
        chosen.cons fun covers => absurd covers (not_covers_of_member? missing)⟩

/-! ## The last declaration -/

theorem declared_append (before after : List (String × String)) :
    declared ⟨before ++ after⟩ = declared ⟨after⟩ ++ declared ⟨before⟩ := by
  simp [declared]

theorem mem_of_lookup_declared {space : List Char}
    (found : (declared ⟨entries⟩).lookup label.toList = some space) :
    ∃ last, (label, last) ∈ entries ∧ space = last.toList := by
  obtain ⟨before, after, split, _⟩ := List.lookup_eq_some_iff.mp found
  have member : (label.toList, space) ∈ declared ⟨entries⟩ := by simp [split]
  obtain ⟨entry, there, same⟩ := List.mem_map.mp (List.mem_reverse.mp member)
  obtain ⟨sameLabel, rfl⟩ := Prod.mk.inj same
  exact ⟨entry.2, String.toList_injective sameLabel ▸ there, rfl⟩

theorem lookup_declared_eq_none_iff :
    (declared ⟨entries⟩).lookup label.toList = none ↔ ∀ entry ∈ entries, entry.1 ≠ label := by
  simp only [List.lookup_eq_none_iff, declared, List.mem_reverse, List.forall_mem_map, bne_iff_ne,
    ne_eq, String.toList_inj, @eq_comm String label]

/-- A label has the namespace of its last declaration. -/
theorem lookup_declared_split (before after : List (String × String)) :
    (declared ⟨before ++ (label, ns) :: after⟩).lookup label.toList =
      ((declared ⟨after⟩).lookup label.toList).or (some ns.toList) := by
  rw [declared_append, ← List.singleton_append, declared_append, List.lookup_append,
    List.lookup_append]
  simp [declared]

theorem exists_lookup_declared (member : (label, ns) ∈ entries) :
    ∃ last, (label, last) ∈ entries ∧
      (declared ⟨entries⟩).lookup label.toList = some last.toList := by
  obtain ⟨before, after, rfl⟩ := List.append_of_mem member
  rw [lookup_declared_split]
  cases again : (declared ⟨after⟩).lookup label.toList with
  | none => exact ⟨ns, member, rfl⟩
  | some space =>
    obtain ⟨last, later, rfl⟩ := mem_of_lookup_declared again
    exact ⟨last, List.mem_append_right _ (List.mem_cons_of_mem _ later), rfl⟩

/-- Another declaration of the label after the chosen one is for another namespace. -/
theorem IsChosen.lookup_declared_iff {before after : List (String × String)}
    (chosen : IsChosen iri before (label, ns) after) :
    (declared ⟨before ++ (label, ns) :: after⟩).lookup label.toList = some ns.toList ↔
      ∀ entry ∈ after, entry.1 ≠ label := by
  rw [lookup_declared_split, ← lookup_declared_eq_none_iff]
  cases again : (declared ⟨after⟩).lookup label.toList with
  | none => simp
  | some space =>
    obtain ⟨last, later, rfl⟩ := mem_of_lookup_declared again
    have other : last ≠ ns := fun same => chosen.not_mem_after (same ▸ later)
    simpa [String.toList_inj] using other

/-! ## Reading a short name -/

/-- What a text denotes where the declarations of the namespaces stand before it, if it is one
IRI. -/
def denoted? (r : Reading) (n : Namespaces) (text : String) : Option String := do
  let declarations ← turtle.tokens? n.header.toList
  let c ← Cursor.statements? r (4 * declarations.length + 4) { tokens := declarations }
  let tokens ← turtle.tokens? text.toList
  let (iri, c) ← (c.moveTo tokens).iri? r
  if c.tokens.isEmpty then some (String.ofList iri) else none

section Denoted
variable (isLabel : ∀ entry ∈ n.entries, isNameLabel entry.1.toList)
  (isIri : ∀ entry ∈ n.entries, isWritable entry.2.toList)
include isLabel isIri

theorem tokens?_header :
    turtle.tokens? n.header.toList = some (declarationTokens n.entries) := by
  have gap : (if n.entries.isEmpty then "" else "\n").toList.all isSpace := by split <;> rfl
  have whole := spells_declarations isLabel isIri (Lexicon.spells_nil.spaces gap) [] nofun
  simpa [header] using whole

omit isLabel in
theorem statements?_header (r : Reading) :
    Cursor.statements? r (4 * (declarationTokens n.entries).length + 4)
      { tokens := declarationTokens n.entries } = some { tokens := [], names := n.declared } := by
  obtain ⟨fuel, steps⟩ : ∃ fuel, 4 * (declarationTokens n.entries).length + 4 =
      (fuel + 1) + n.entries.length :=
    ⟨15 * n.entries.length + 3, by rw [length_declarationTokens]; omega⟩
  have read : Cursor.statements? r ((fuel + 1) + n.entries.length)
      (Cursor.moveTo { tokens := [] } (declarationTokens n.entries ++ [])) =
        Cursor.statements? r (fuel + 1)
          (Cursor.moveTo { tokens := [], names := n.declared ++ [] } []) :=
    Cursor.statements?_declarations [] isIri
  rw [List.append_nil, Cursor.moveTo] at read
  rw [steps, read]
  simp [Cursor.statements?, Cursor.moveTo]

/-- A label and a local part denote what the last declaration of the label makes of them. -/
theorem denoted?_name (r : Reading) {tail : List Char} (named : isNameLabel label.toList)
    (safe : isSafeName tail) : n.denoted? r (label ++ ":" ++ String.ofList tail) =
      (n.declared.lookup label.toList).map fun space => String.ofList (space ++ tail) := by
  have name : turtle.tokens? (label ++ ":" ++ String.ofList tail).toList =
      some [.name label.toList tail] := by
    simpa using spells_name named safe [] nofun
  simp only [denoted?, tokens?_header isLabel isIri, statements?_header isIri, name,
    Option.bind_eq_bind, Option.bind_some]
  cases found : n.declared.lookup label.toList <;> simp [Cursor.iri?, Cursor.moveTo, found]

/-- The short name of an IRI is the label of the declaration chosen for it, a colon and a local part.
It denotes the local part under a namespace that the label is declared for, and the IRI itself exactly
when the label is not declared again after the chosen declaration. -/
theorem compact?_expands (r : Reading) {iri name : String} (short : n.compact? iri = some name) :
    ∃ before label ns member after, n.entries = before ++ (label, ns) :: after ∧
      IsChosen iri before (label, ns) after ∧
      name = label ++ ":" ++ member ∧ iri = ns ++ member ∧
      Terminal.localPart? member.toList = some (member.toList, []) ∧
      (∃ other, (label, other) ∈ n.entries ∧ n.denoted? r name = some (other ++ member)) ∧
      (n.denoted? r name = some iri ↔ ∀ entry ∈ after, entry.1 ≠ label) := by
  cases covered : cover? iri n.entries with
  | none => simp [compact?, covered] at short
  | some found =>
    obtain ⟨label, ns, tail⟩ := found
    obtain ⟨safe, rfl⟩ : isSafeName tail ∧ label ++ ":" ++ String.ofList tail = name := by
      simpa [compact?, covered] using short
    obtain ⟨member, whole⟩ := mem_of_cover? covered
    obtain ⟨before, after, split, chosen⟩ := exists_isChosen covered
    have expanded : iri = ns ++ String.ofList tail := String.toList_injective (by simpa using whole)
    have denotes := denoted?_name isLabel isIri r (isLabel _ member) safe
    have again := chosen.lookup_declared_iff
    rw [← split] at again
    obtain ⟨last, declared, found⟩ := exists_lookup_declared member
    rw [found] at again denotes
    refine ⟨before, label, ns, String.ofList tail, after, split, chosen, rfl, expanded, ?_,
      ⟨last, declared, ?_⟩, ?_⟩
    · have ends : Ends [] := by simp [Ends]
      have read := localPart?_append safe ends
      simpa using read
    · simpa using denotes
    · rw [denotes, ← again, expanded]
      simp [String.toList_inj]

end Denoted

/-- Namespaces inside each other, one of them under two labels, and a label that had another
namespace before. -/
def overlapping : Namespaces :=
  ⟨[("a", "http://ex.org/old/"), ("ex", "http://ex.org/"), ("ns", "http://ex.org/ns/"),
    ("a", "http://ex.org/ns/")]⟩

theorem compact?_expands_overlapping :
    (∀ entry ∈ overlapping.entries, isNameLabel entry.1.toList) ∧
    (∀ entry ∈ overlapping.entries, isWritable entry.2.toList) ∧
    overlapping.compact? "http://ex.org/ns/Item" = some "a:Item" ∧
    ∃ before label ns member after, overlapping.entries = before ++ (label, ns) :: after ∧
      IsChosen "http://ex.org/ns/Item" before (label, ns) after ∧
      "a:Item" = label ++ ":" ++ member ∧ "http://ex.org/ns/Item" = ns ++ member ∧
      Terminal.localPart? member.toList = some (member.toList, []) ∧
      (∃ other, (label, other) ∈ overlapping.entries ∧
        overlapping.denoted? ⟨fun _ reference => reference, fun _ => "node"⟩ "a:Item" =
          some (other ++ member)) ∧
      (overlapping.denoted? ⟨fun _ reference => reference, fun _ => "node"⟩ "a:Item" =
          some "http://ex.org/ns/Item" ↔ ∀ entry ∈ after, entry.1 ≠ label) := by
  have isLabel : ∀ entry ∈ overlapping.entries, isNameLabel entry.1.toList := by decide
  have isIri : ∀ entry ∈ overlapping.entries, isWritable entry.2.toList := by decide
  have short : overlapping.compact? "http://ex.org/ns/Item" = some "a:Item" := by decide
  exact ⟨isLabel, isIri, short, compact?_expands isLabel isIri _ short⟩

/-- One label for two namespaces. -/
def redeclared : Namespaces := ⟨[("ex", "http://a.org/"), ("ex", "http://b.org/")]⟩

/-- An IRI is shortened under a namespace that its label no longer has, and read as another one. -/
theorem short_name_denotes_other :
    (∀ entry ∈ redeclared.entries, isNameLabel entry.1.toList) ∧
    (∀ entry ∈ redeclared.entries, isWritable entry.2.toList) ∧
    redeclared.compact? "http://a.org/x" = some "ex:x" ∧
    redeclared.denoted? ⟨fun _ reference => reference, fun _ => "node"⟩ "ex:x" =
      some "http://b.org/x" := by
  have isLabel : ∀ entry ∈ redeclared.entries, isNameLabel entry.1.toList := by decide
  have isIri : ∀ entry ∈ redeclared.entries, isWritable entry.2.toList := by decide
  have short : redeclared.compact? "http://a.org/x" = some "ex:x" := by decide
  have last : redeclared.declared.lookup "ex".toList = some "http://b.org/".toList := by decide
  have read := @denoted?_name redeclared "ex" isLabel isIri
    ⟨fun _ reference => reference, fun _ => "node"⟩ ['x'] (by decide) (by decide)
  rw [last] at read
  exact ⟨isLabel, isIri, short, read⟩

end Namespaces
end Formulary
