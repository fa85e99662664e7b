import Formulary.Proofs.CellOutcomes

/-!
# Walks along lists

The walk through the joined rows as a walk in the graph (`Lists.walk_eq_walkList`). The rows are those
of all roots, but what they tell of a cell depends on the cell alone: after a cell of a list there come
the cells that the graph links to it and that carry a step, and no others. The cells that are not yet
visited bound the walk, which therefore never runs out of fuel. Where the list does not branch, walking
it is reading it (`Graph.walkList_eq_readList`).
-/

namespace Formulary
open Std Relation

namespace Graph

variable {g : Graph} {cell : Term} {hop : Hop} {seen : SortedSet Term}

theorem hop?_eq_ok :
    g.hop? cell = some (.ok hop) ↔ g.decode? cell = some (.ok hop.step) ∧ hop.cell = cell := by
  obtain ⟨step, there⟩ := hop
  cases decoded : g.decode? cell with
  | none => simp [hop?, decoded]
  | some outcome => cases outcome <;> simp [hop?, decoded, Except.map, eq_comm]

theorem hop?_eq_error {defect : Defect} :
    g.hop? cell = some (.error defect) ↔ g.decode? cell = some (.error defect) := by
  cases decoded : g.decode? cell with
  | none => simp [hop?, decoded]
  | some outcome => cases outcome <;> simp [hop?, decoded, Except.map]

theorem edge_first_of_decode? {outcome : Except Defect Step} (decoded : g.decode? cell = some outcome) :
    ∃ element, g.Edge (.iri Rdf.first) cell element :=
  hop?_ne_none.mp (by simp [hop?, decoded])

/-- A blank element stands for a step where nothing is said of it but one inverse path. -/
theorem stepOf_blank_eq_ok {label : String} {step : Step} : g.stepOf (.blank label) = .ok step ↔
    ∃ target, (∀ t, t ∈ g ∧ t.subject = .blank label ↔
      t = ⟨.blank label, .iri Sh.inversePath, target⟩) ∧ target.isIri ∧ step = .inverse target := by
  simp only [← about_eq_singleton_iff, stepOf]
  cases said : g.about (.blank label) with
  | nil => simp
  | cons t others =>
    have about : t.subject = .blank label := (mem_about.mp (said ▸ List.mem_cons_self)).2
    obtain ⟨subject, predicate, object⟩ := t
    obtain rfl : subject = .blank label := about
    cases others with
    | cons => simp
    | nil =>
      by_cases inverse : predicate = .iri Sh.inversePath
      · by_cases iri : object.isIri <;> simp [inverse, iri, @eq_comm _ step]
      · simp [inverse]

/-- A cell carries a step where it has one element and this stands for the step. -/
theorem decode?_eq_ok {step : Step} : g.decode? cell = some (.ok step) ↔
    ∃ element, (∀ other, g.Edge (.iri Rdf.first) cell other ↔ other = element) ∧
      g.stepOf element = .ok step := by
  simp only [← objects_eq_singleton_iff, decode?]
  cases g.objects cell (.iri Rdf.first) with
  | nil => simp
  | cons element others => cases others <;> simp

/-! ## The walk in a graph -/

/-- The steps that may come after a cell, each with the cell that carries it. -/
def next (g : Graph) (cell : Term) : SortedSet Hop :=
  .ofList ((g.objects cell (.iri Rdf.rest)).filterMap fun later => (g.hop? later).bind (·.toOption))

/-- What becomes of a walk that finds no step after a cell. -/
def close (g : Graph) (cell : Term) : Except Defect Chain :=
  if ⟨cell, .iri Rdf.rest, .iri Rdf.nil⟩ ∈ g then .ok []
  else
    match (g.objects cell (.iri Rdf.rest)).head?.bind g.decode? with
    | some (.error defect) => .error defect
    | _ => .error .unterminated

theorem mem_next : hop ∈ g.next cell ↔
    g.Edge (.iri Rdf.rest) cell hop.cell ∧ g.decode? hop.cell = some (.ok hop.step) := by
  simp only [next, SortedSet.mem_ofList, List.mem_filterMap, mem_objects, Option.bind_eq_some_iff]
  constructor
  · rintro ⟨later, rest, _ | found, carries, same⟩
    · nomatch same
    · obtain rfl := Option.some.inj same
      obtain ⟨decoded, rfl⟩ := hop?_eq_ok.mp carries
      exact ⟨rest, decoded⟩
  · rintro ⟨rest, decoded⟩
    exact ⟨hop.cell, rest, .ok hop, hop?_eq_ok.mpr ⟨decoded, rfl⟩, rfl⟩

/-- Where one step comes next, its cell is linked to this one. -/
theorem onward_of_next (single : (g.next cell).toList = [hop]) :
    g.Edge (.iri Rdf.rest) cell hop.cell ∧ g.decode? hop.cell = some (.ok hop.step) :=
  mem_next.mp ((SortedSet.toList_eq_singleton_iff.mp single hop).mpr rfl)

/-- The steps after a cell, where some cells have been seen. -/
def walkFrom (g : Graph) (seen : SortedSet Term) (cell : Term) : Except Defect Chain :=
  match _ : (g.next cell).toList with
  | [] => g.close cell
  | [hop] =>
    if _ : hop.cell ∈ seen then .error .cycle
    else (hop.step :: ·) <$> g.walkFrom (seen.insert hop.cell) hop.cell
  | _ :: _ :: _ => .error (.ambiguous cell)
termination_by (g.unseen seen).card
decreasing_by exact card_unseen_insert_lt (onward_of_next ‹_›).1 ‹_›

/-- The steps of a list. -/
def walkList (g : Graph) (cell : Term) : Except Defect Chain :=
  match g.decode? cell with
  | none => .error .missingHead
  | some (.error defect) => .error defect
  | some (.ok step) => (step :: ·) <$> g.walkFrom (.ofList [cell]) cell

theorem walkFrom_eq : g.walkFrom seen cell =
    match (g.next cell).toList with
    | [] => g.close cell
    | [hop] =>
      if hop.cell ∈ seen then .error .cycle
      else (hop.step :: ·) <$> g.walkFrom (seen.insert hop.cell) hop.cell
    | _ :: _ :: _ => .error (.ambiguous cell) := by
  rw [walkFrom]
  split <;> rename_i found <;> simp only [found, dite_eq_ite]

end Graph

/-! ## The walk through the joined rows -/

theorem Dataset.objectOf_eq {schema : Dataset} {subject predicate : Term} :
    schema.objectOf subject predicate = ((schema.graph none).objects subject predicate).head? := by
  rw [objectOf, Graph.objects, List.head?_map, List.head?_filter]

/-- The first object is the least one. -/
theorem Dataset.objectOf_eq_some_iff {schema : Dataset} {subject predicate object : Term} :
    schema.objectOf subject predicate = some object ↔
      (schema.graph none).Edge predicate subject object ∧
        ∀ other, (schema.graph none).Edge predicate subject other → compare other object ≠ .lt := by
  simp only [objectOf_eq, ← Graph.mem_objects]
  cases objects : (schema.graph none).objects subject predicate with
  | nil => simp
  | cons first rest =>
    have below : ∀ later ∈ rest, compare first later = .lt :=
      (List.pairwise_cons.mp (objects ▸ Graph.ascending_objects)).1
    rw [List.head?_cons, Option.some.injEq]
    constructor
    · rintro rfl
      refine ⟨List.mem_cons_self, fun other member => ?_⟩
      rcases List.mem_cons.mp member with rfl | later
      · simp
      · simp [OrientedCmp.gt_iff_lt.mpr (below other later)]
    · rintro ⟨member, least⟩
      rcases List.mem_cons.mp member with same | later
      · exact same.symm
      · exact absurd (below object later) (least first List.mem_cons_self)

namespace Lists

variable {schema : Dataset} {kind : RootKind} {l : Lists} {place : Place} {cell next : Term}
  {hop : Hop}

/-- After a cell there may come the steps of the later cells that the graph links to it. -/
theorem mem_next (made : ofSchema schema kind = .ok l) : hop ∈ l.next cell ↔
    (∃ root, (schema.graph none).Follows kind root hop.cell) ∧
      (schema.graph none).Edge (.iri Rdf.rest) cell hop.cell ∧
      (schema.graph none).decode? hop.cell = some (.ok hop.step) := by
  simp only [Lists.next, SortedSet.mem_ofList, List.mem_filterMap]
  constructor
  · rintro ⟨⟨place, _ | other⟩, member, found⟩
    · exact absurd found nofun
    · simp only [List.contains_iff_mem, Option.ite_none_right_eq_some, Option.some.injEq] at found
      obtain ⟨linked, rfl⟩ := found
      obtain ⟨follows, outcome⟩ := (mem_tails made).mp member
      obtain ⟨decoded, same⟩ := Graph.hop?_eq_ok.mp outcome
      rw [same]
      exact ⟨⟨_, follows⟩, ((mem_links made).mp linked).2.1, decoded⟩
  · rintro ⟨⟨root, follows⟩, rest, decoded⟩
    refine ⟨(⟨root, hop.cell⟩, .ok hop), (mem_tails made).mpr ⟨follows, ?_⟩, ?_⟩
    · exact Graph.hop?_eq_ok.mpr ⟨decoded, rfl⟩
    · have linked : (cell, hop.cell) ∈ l.links :=
        (mem_links made).mpr ⟨⟨root, follows⟩, rest, Graph.edge_first_of_decode? decoded⟩
      simp [linked]

/-- A later cell is broken by the defect of its own element. -/
theorem broken?_eq_some_iff (made : ofSchema schema kind = .ok l)
    (follows : ∃ root, (schema.graph none).Follows kind root cell) {defect : Defect} :
    l.broken? cell = some defect ↔ (schema.graph none).decode? cell = some (.error defect) := by
  have sound : ∀ defect, l.broken? cell = some defect →
      (schema.graph none).decode? cell = some (.error defect) := by
    intro defect broken
    obtain ⟨⟨place, _ | _⟩, member, found⟩ := List.exists_of_findSome?_eq_some broken
    · simp only [Option.ite_none_right_eq_some, Option.some.injEq] at found
      obtain ⟨rfl, rfl⟩ := found
      exact Graph.hop?_eq_error.mp ((mem_tails made).mp member).2
    · exact absurd found nofun
  constructor
  · exact sound defect
  · intro decoded
    cases broken : l.broken? cell with
    | some other =>
      obtain rfl : other = defect := by simpa [sound other broken] using decoded
      rfl
    | none =>
      obtain ⟨root, later⟩ := follows
      have member : (⟨root, cell⟩, .error defect) ∈ l.tails :=
        (mem_tails made).mpr ⟨later, Graph.hop?_eq_error.mpr decoded⟩
      exact absurd (List.findSome?_eq_none_iff.mp broken _ member) (by simp)

/-- The first cell of a list has the outcome of decoding it. -/
theorem head?_eq (made : ofSchema schema kind = .ok l)
    (starts : (schema.graph none).Starts kind place.root place.cell) :
    l.head? place = (schema.graph none).hop? place.cell := by
  rw [head?]
  cases found : l.heads.find? fun entry => entry.1 = place with
  | none =>
    refine (Option.eq_none_iff_forall_ne_some.mpr fun outcome hop => ?_).symm
    have member : (place, outcome) ∈ l.heads := (mem_heads made).mpr ⟨starts, hop⟩
    exact absurd (List.find?_eq_none.mp found _ member) (by simp)
  | some entry =>
    have same : entry.1 = place := by simpa using List.find?_some found
    subst same
    exact ((mem_heads made).mp (List.mem_of_find?_eq_some found)).2.symm

/-- The later cells that have not been visited. -/
def unvisited (l : Lists) (visited : List Term) : Finset Term :=
  (l.tails.map (·.1.cell)).toFinset \ visited.toFinset

theorem card_unvisited_lt (made : ofSchema schema kind = .ok l) {visited : List Term} {step : Step}
    (follows : ∃ root, (schema.graph none).Follows kind root next)
    (decoded : (schema.graph none).decode? next = some (.ok step)) (fresh : next ∉ visited) :
    (l.unvisited (next :: visited)).card < (l.unvisited visited).card := by
  obtain ⟨root, later⟩ := follows
  have tail : (⟨root, next⟩, .ok ⟨step, next⟩) ∈ l.tails :=
    (mem_tails made).mpr ⟨later, Graph.hop?_eq_ok.mpr ⟨decoded, rfl⟩⟩
  refine Finset.card_lt_card ⟨fun a left => ?_, fun within => ?_⟩
  · simp only [unvisited, Finset.mem_sdiff, List.mem_toFinset, List.mem_cons, not_or] at left ⊢
    exact ⟨left.1, left.2.2⟩
  · have left : next ∈ l.unvisited visited := by
      simp only [unvisited, Finset.mem_sdiff, List.mem_toFinset, List.mem_map]
      exact ⟨⟨_, tail, rfl⟩, fresh⟩
    simpa [unvisited] using within left

/-- The fuel of a walk is more than the later cells. -/
theorem card_unvisited_lt_fuel {visited : List Term} :
    (l.unvisited visited).card < l.tails.length + 1 :=
  calc (l.unvisited visited).card ≤ (l.tails.map (·.1.cell)).toFinset.card :=
        Finset.card_le_card Finset.sdiff_subset
    _ ≤ (l.tails.map (·.1.cell)).length := List.toFinset_card_le _
    _ < l.tails.length + 1 := by rw [List.length_map]; omega

/-- The joined rows have the steps after a cell of a list that the graph has, whatever other lists
they have been joined from. -/
theorem next_eq (made : ofSchema schema kind = .ok l)
    (starts : (schema.graph none).Starts kind place.root place.cell)
    (path : ReflTransGen ((schema.graph none).Edge (.iri Rdf.rest)) place.cell cell) :
    l.next cell = (schema.graph none).next cell := by
  refine SortedSet.ext_mem fun hop => ?_
  rw [mem_next made, Graph.mem_next]
  constructor
  · rintro ⟨-, rest, decoded⟩
    exact ⟨rest, decoded⟩
  · rintro ⟨rest, decoded⟩
    exact ⟨⟨place.root, place.cell, starts, .tail' path rest⟩, rest, decoded⟩

theorem close_eq (made : ofSchema schema kind = .ok l)
    (starts : (schema.graph none).Starts kind place.root place.cell)
    (path : ReflTransGen ((schema.graph none).Edge (.iri Rdf.rest)) place.cell cell) :
    l.close schema cell = (schema.graph none).close cell := by
  rw [close, Graph.close, Dataset.objectOf_eq]
  cases first : ((schema.graph none).objects cell (.iri Rdf.rest)).head? with
  | none => rfl
  | some later =>
    have follows : ∃ root, (schema.graph none).Follows kind root later :=
      ⟨place.root, place.cell, starts, .tail' path (Graph.edge_of_head? first)⟩
    have broken := fun defect => @broken?_eq_some_iff schema kind l later made follows defect
    simp only [Option.bind_some]
    cases found : l.broken? later with
    | some defect => rw [(broken defect).mp found]
    | none =>
      cases decoded : (schema.graph none).decode? later with
      | none => rfl
      | some outcome =>
        cases outcome with
        | error defect => exact absurd (found.symm.trans ((broken defect).mpr decoded)) nofun
        | ok step => rfl

/-- From a cell of a list on, the walk is that in the graph if there is fuel for every later cell. -/
theorem follow_eq_walkFrom (made : ofSchema schema kind = .ok l)
    (starts : (schema.graph none).Starts kind place.root place.cell) {fuel : Nat} {visited : List Term}
    (path : ReflTransGen ((schema.graph none).Edge (.iri Rdf.rest)) place.cell cell)
    (enough : (l.unvisited visited).card < fuel) :
    l.follow schema fuel visited cell = (schema.graph none).walkFrom (.ofList visited) cell := by
  induction fuel generalizing visited cell with
  | zero => omega
  | succ fuel ih =>
    rw [follow, Graph.walkFrom_eq, next_eq made starts path]
    cases found : ((schema.graph none).next cell).toList with
    | nil => exact close_eq made starts path
    | cons hop others =>
      cases others with
      | cons => rfl
      | nil =>
        obtain ⟨rest, decoded⟩ := Graph.onward_of_next found
        have follows : ∃ root, (schema.graph none).Follows kind root hop.cell :=
          ⟨place.root, place.cell, starts, .tail' path rest⟩
        simp only [List.contains_iff_mem, SortedSet.mem_ofList]
        by_cases old : hop.cell ∈ visited
        · rw [if_pos old, if_pos old]
        · have seen : (SortedSet.ofList visited).insert hop.cell = .ofList (hop.cell :: visited) :=
            SortedSet.ext_mem fun a => by simp
          have fewer := card_unvisited_lt made follows decoded old
          rw [if_neg old, if_neg old, seen, ih (path.tail rest) (by omega)]

/-- The walk along the list of a root is that in the graph. -/
theorem walk_eq_walkList (made : ofSchema schema kind = .ok l)
    (starts : (schema.graph none).Starts kind place.root place.cell) :
    l.walk schema place = (schema.graph none).walkList place.cell := by
  rw [walk, head?_eq made starts, Graph.walkList, Graph.hop?]
  cases decoded : (schema.graph none).decode? place.cell with
  | none => rfl
  | some outcome =>
    cases outcome with
    | error defect => rfl
    | ok step =>
      exact congrArg ((step :: ·) <$> ·)
        (follow_eq_walkFrom made starts .refl card_unvisited_lt_fuel)

end Lists

/-! ## Walking and reading -/

namespace Graph

variable {g : Graph} {cell later : Term} {seen : SortedSet Term}

theorem close_of_last (last : ∀ next, ¬ g.Edge (.iri Rdf.rest) cell next) :
    g.close cell = .error .unterminated := by
  have open_ : ⟨cell, .iri Rdf.rest, .iri Rdf.nil⟩ ∉ g := last _
  have nowhere : g.objects cell (.iri Rdf.rest) = [] :=
    List.eq_nil_iff_forall_not_mem.mpr fun next member => last next (mem_objects.mp member)
  rw [close, if_neg open_, nowhere]
  rfl

theorem close_of_next (unbranched : g.Unbranched cell) (rest : g.Edge (.iri Rdf.rest) cell later) :
    g.close cell =
      if later = .iri Rdf.nil then .ok []
      else
        match g.decode? later with
        | some (.error defect) => .error defect
        | _ => .error .unterminated := by
  by_cases ends : later = .iri Rdf.nil
  · rw [close, if_pos (ends ▸ rest), if_pos ends]
  · have open_ : ⟨cell, .iri Rdf.rest, .iri Rdf.nil⟩ ∉ g := fun edge =>
      ends (unbranched cell .refl _ _ rest edge)
    have alone : g.objects cell (.iri Rdf.rest) = [later] := objects_eq_singleton_iff.mpr fun other =>
      ⟨fun edge => unbranched cell .refl _ _ edge rest, fun same => same ▸ rest⟩
    rw [close, if_neg open_, if_neg ends, alone]
    rfl

/-- From a cell of a list that does not branch, walking on is reading on. That the seen cells have
steps keeps the two from differing on cycles. -/
theorem walkFrom_eq_readFrom (bare : ∀ element, ¬ g.Edge (.iri Rdf.first) (.iri Rdf.nil) element)
    (unbranched : g.Unbranched cell) (steps : ∀ v ∈ seen, ∃ step, g.decode? v = some (.ok step)) :
    g.walkFrom seen cell = g.readFrom seen cell := by
  have more : ∀ {hop : Hop}, g.decode? hop.cell = some (.ok hop.step) → hop.cell ≠ .iri Rdf.nil :=
    fun decoded same => by
      obtain ⟨element, first⟩ := edge_first_of_decode? decoded
      exact bare element (same ▸ first)
  induction seen, cell using walkFrom.induct g with
  | case1 seen cell none =>
    rw [walkFrom_eq, none]
    by_cases last : ∀ next, ¬ g.Edge (.iri Rdf.rest) cell next
    · exact (close_of_last last).trans (readFrom_last last).symm
    push Not at last
    obtain ⟨later, rest⟩ := last
    have undecoded : ∀ step, g.decode? later ≠ some (.ok step) := fun step decoded =>
      SortedSet.toList_eq_nil_iff.mp none ⟨step, later⟩ (mem_next.mpr ⟨rest, decoded⟩)
    have fresh : later ∉ seen := fun member => (steps later member).elim undecoded
    simp only [close_of_next unbranched rest, readFrom_next unbranched rest, if_neg fresh]
    cases decoded : g.decode? later with
    | none => rfl
    | some outcome =>
      cases outcome with
      | error defect => rfl
      | ok step => exact absurd decoded (undecoded step)
  | case2 seen cell hop single old =>
    obtain ⟨rest, decoded⟩ := onward_of_next single
    rw [walkFrom_eq, single, readFrom_next unbranched rest, if_neg (more decoded), if_pos old]
    simp only [if_pos old]
  | case3 seen cell hop single fresh ih =>
    obtain ⟨rest, decoded⟩ := onward_of_next single
    have known : ∀ v ∈ seen.insert hop.cell, ∃ step, g.decode? v = some (.ok step) := fun v member => by
      rcases SortedSet.mem_insert.mp member with rfl | member
      · exact ⟨_, decoded⟩
      · exact steps v member
    rw [walkFrom_eq, single, readFrom_next unbranched rest, if_neg (more decoded), if_neg fresh, decoded]
    simp only [if_neg fresh, ih (unbranched.later (.single rest)) known]
  | case4 seen cell one two others several =>
    have members : one ∈ g.next cell ∧ two ∈ g.next cell := by
      simp [← SortedSet.mem_toList, several]
    obtain ⟨⟨toOne, carries⟩, toTwo, carriesToo⟩ := And.imp mem_next.mp mem_next.mp members
    have cells : one.cell = two.cell := unbranched cell .refl _ _ toOne toTwo
    have steps : one.step = two.step := by simpa [cells, carriesToo, eq_comm] using carries
    have distinct := several ▸ (g.next cell).nodup_toList
    obtain ⟨step, there⟩ := one
    obtain ⟨rfl, rfl⟩ := And.intro steps cells
    simp at distinct

/-- Walking a list that does not branch is reading it. -/
theorem walkList_eq_readList (bare : ∀ element, ¬ g.Edge (.iri Rdf.first) (.iri Rdf.nil) element)
    (unbranched : g.Unbranched cell) : g.walkList cell = g.readList cell := by
  rw [walkList, readList]
  cases decoded : g.decode? cell with
  | none => rfl
  | some outcome =>
    cases outcome with
    | error defect => rfl
    | ok step =>
      have known : ∀ v ∈ SortedSet.ofList [cell], ∃ step, g.decode? v = some (.ok step) :=
        fun v member => ⟨step, List.mem_singleton.mp (SortedSet.mem_ofList.mp member) ▸ decoded⟩
      exact congrArg ((step :: ·) <$> ·) (walkFrom_eq_readFrom bare unbranched known)

end Graph
end Formulary
