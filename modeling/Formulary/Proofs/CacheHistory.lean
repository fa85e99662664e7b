import Formulary.Proofs.Failure
import Formulary.Proofs.FiniteContent
import Formulary.SchemaCache

/-!
# Histories of a schema cache

A cache holds its schemas twice, and one insertion may displace two of them. `Indexes` says that
both indexes hold the same schemas, each under its own identifier or IRI; every request keeps this,
and what it does to the schemas is said without the indexes (`Indexes.serve`). Along a history of
requests the cache holds exactly those schemas whose insertion nothing later has displaced
(`after_exact`).
-/

namespace Formulary.SchemaCache
open Std

/-! ## Insertion -/

section
variable {c : SchemaCache} {id : String} {uri : Term} {graph : Dataset} {paths : PathMap}
  {error : FormError}

/-- The schema in both indexes, in place of any with the same identifier or IRI. -/
def put (c : SchemaCache) (schema : CachedSchema) : SchemaCache :=
  ⟨((c.dropId schema.id).dropUri schema.uri).byId.insert schema.id schema,
    ((c.dropId schema.id).dropUri schema.uri).byUri.insert schema.uri schema⟩

/-- An insertion that fails has not dropped anything. -/
theorem run_hold_of_error (failed : graph.paths .field = .error error) :
    ((hold id uri graph).run c).run = (.error error, c) := by
  rw [hold, failed]
  rfl

theorem run_hold_of_ok (resolved : graph.paths .field = .ok paths) :
    ((hold id uri graph).run c).run = (.ok ⟨id, uri, graph, paths⟩, c.put ⟨id, uri, graph, paths⟩) := by
  rw [hold, resolved]
  rfl

theorem insert_eq_ok {schema : CachedSchema} {next : SchemaCache} :
    c.insert id uri graph = .ok (schema, next) ↔
      ((hold id uri graph).run c).run = (.ok schema, next) := by
  rw [insert]
  rcases ((hold id uri graph).run c).run with ⟨error | found, after⟩ <;> simp [Except.map]

end

/-! ## Requests -/

inductive Request where
  | insert (id : String) (uri : Term) (graph : Dataset)
  | getById (id : String)
  | getByUri (uri : Term)
  | invalidate (uri : Term)
  | clear

inductive Reply where
  | inserted (outcome : Except FormError CachedSchema)
  | found (schema : Option CachedSchema)
  | dropped (held : Bool)
  | cleared

/-- Serves a request: the reply to it, and the cache that it leaves. -/
def serve (c : SchemaCache) : Request → Reply × SchemaCache
  | .insert id uri graph =>
    let (outcome, next) := ((hold id uri graph).run c).run
    (.inserted outcome, next)
  | .getById id => (.found (c.getById id), c)
  | .getByUri uri => (.found (c.getByUri uri), c)
  | .invalidate uri => (.dropped (c.invalidate uri).1, (c.invalidate uri).2)
  | .clear => (.cleared, ∅)

/-- The cache after a history of requests, the first one first. -/
def after (history : List Request) : SchemaCache :=
  history.foldl (fun c request => (c.serve request).2) ∅

namespace Request

/-- The request is a successful insertion of the schema. -/
def Brings (e : CachedSchema) : Request → Prop
  | .insert id uri graph => e.id = id ∧ e.uri = uri ∧ e.graph = graph ∧
      graph.paths .field = .ok e.paths
  | _ => False

/-- A successful insertion of the identifier or the IRI, an invalidation of the IRI, or a clearing. -/
def Displaces (e : CachedSchema) : Request → Prop
  | .insert id uri graph => (∃ paths, graph.paths .field = .ok paths) ∧ (e.id = id ∨ e.uri = uri)
  | .invalidate uri => e.uri = uri
  | .clear => True
  | _ => False

end Request

/-- A request whose graph is resolved brings the one schema that it makes. -/
theorem Request.brings_insert {id : String} {uri : Term} {graph : Dataset} {paths : PathMap}
    {e : CachedSchema} (resolved : graph.paths .field = .ok paths) :
    (Request.insert id uri graph).Brings e ↔ e = ⟨id, uri, graph, paths⟩ := by
  constructor
  · rintro ⟨rfl, rfl, rfl, same⟩
    obtain rfl := Except.ok.inj (resolved.symm.trans same)
    rfl
  · rintro rfl
    exact ⟨rfl, rfl, rfl, resolved⟩

/-- The schema came with a request of the history, and no later request displaces it. -/
def Kept (history : List Request) (e : CachedSchema) : Prop :=
  ∃ before request later, history = before ++ request :: later ∧ request.Brings e ∧
    ∀ other ∈ later, ¬ other.Displaces e

theorem not_kept_nil {e : CachedSchema} : ¬ Kept [] e := by
  rintro ⟨before, request, later, split, -⟩
  simp at split

/-- One more request brings a schema, or lets stay what was kept and it does not displace. -/
theorem kept_append {history : List Request} {request : Request} {e : CachedSchema} :
    Kept (history ++ [request]) e ↔
      request.Brings e ∨ Kept history e ∧ ¬ request.Displaces e := by
  constructor
  · rintro ⟨before, first, later, split, brings, stays⟩
    rcases List.eq_nil_or_concat later with rfl | ⟨others, last, rfl⟩
    · obtain ⟨-, same⟩ := List.append_inj' split rfl
      cases same
      exact .inl brings
    · rw [List.concat_eq_append, ← List.cons_append, ← List.append_assoc] at split
      obtain ⟨rfl, same⟩ := List.append_inj' split rfl
      cases same
      rw [List.concat_eq_append] at stays
      refine .inr ⟨⟨before, first, others, rfl, brings, fun other there => ?_⟩, ?_⟩
      · exact stays other (List.mem_append_left _ there)
      · exact stays request (List.mem_append_right _ List.mem_cons_self)
  · rintro (brings | ⟨⟨before, first, later, rfl, brings, stays⟩, notDisplaced⟩)
    · exact ⟨history, request, [], rfl, brings, nofun⟩
    · refine ⟨before, first, later ++ [request], by simp, brings, fun other there => ?_⟩
      rcases List.mem_append.mp there with earlier | last
      · exact stays other earlier
      · rwa [List.mem_singleton.mp last]

/-! ## Indexes -/

/-- The map holds exactly the given values, each under its own key. -/
def IsIndex {κ β : Type} [Ord κ] (m : SortedMap κ β) (key : β → κ) (held : β → Prop) : Prop :=
  ∀ k e, m.get? k = some e ↔ held e ∧ key e = k

namespace IsIndex

variable {κ β : Type} [Ord κ] [TransOrd κ] [LawfulEqOrd κ] {m : SortedMap κ β} {key : β → κ}
  {held : β → Prop} {e f : β}

omit [TransOrd κ] [LawfulEqOrd κ] in
theorem empty : IsIndex (∅ : SortedMap κ β) key fun _ => False := by
  simp [IsIndex]

variable (index : IsIndex m key held)
include index

omit [TransOrd κ] [LawfulEqOrd κ] in
theorem eq_of_key (here : held e) (there : held f) (same : key e = key f) : e = f :=
  Option.some.inj (((index _ e).mpr ⟨here, same⟩).symm.trans ((index _ f).mpr ⟨there, rfl⟩))

omit [TransOrd κ] in
/-- A value taken out. -/
theorem erase [DecidableEq κ] (there : held f) :
    IsIndex (m.erase (key f)) key fun e => held e ∧ e ≠ f := by
  intro k e
  rw [SortedMap.get?_erase]
  split
  next same =>
    constructor
    · exact nofun
    · rintro ⟨⟨here, apart⟩, rfl⟩
      exact absurd (index.eq_of_key here there same) apart
  next apart =>
    rw [index]
    constructor
    · rintro ⟨here, rfl⟩
      exact ⟨⟨here, fun same => apart (congrArg key same)⟩, rfl⟩
    · rintro ⟨⟨here, -⟩, rfl⟩
      exact ⟨here, rfl⟩

/-- A value put in, where no other one has its key. -/
theorem insert [DecidableEq κ] (free : ∀ e, held e → key e ≠ key f) :
    IsIndex (m.insert (key f) f) key fun e => e = f ∨ held e := by
  intro k e
  rw [SortedMap.get?_insert]
  split
  next same =>
    subst same
    constructor
    · intro found
      obtain rfl := Option.some.inj found
      exact ⟨.inl rfl, rfl⟩
    · rintro ⟨rfl | here, same⟩
      · rfl
      · exact absurd same (free e here)
  next apart =>
    rw [index]
    constructor
    · exact And.imp_left .inr
    · rintro ⟨rfl | here, rfl⟩
      · exact absurd rfl apart
      · exact ⟨here, rfl⟩

/-- The number of entries is the number of values. -/
theorem size_eq : m.size = {e | held e}.ncard := by
  have keyed : ∀ entry ∈ m.entries, key entry.2 = entry.1 := fun entry there =>
    ((index _ _).mp (SortedMap.get?_eq_some_iff.mpr there)).2
  have distinct : m.values.Nodup := by
    have keys : m.values.map key = m.keys := by
      rw [SortedMap.values, SortedMap.keys, List.map_map]
      exact List.map_congr_left keyed
    exact List.Nodup.of_map key (keys ▸ SortedMap.nodup_keys m)
  rw [← length_eq_ncard distinct, SortedMap.values, List.length_map, SortedMap.size]
  intro e
  rw [SortedMap.values, List.mem_map, Set.mem_ofPred_eq]
  constructor
  · rintro ⟨entry, there, rfl⟩
    exact ((index _ _).mp (SortedMap.get?_eq_some_iff.mpr there)).1
  · intro here
    exact ⟨(key e, e), SortedMap.get?_eq_some_iff.mp ((index _ _).mpr ⟨here, rfl⟩), rfl⟩

end IsIndex

/-- Both indexes hold exactly the given schemas. -/
structure Indexes (c : SchemaCache) (held : CachedSchema → Prop) : Prop where
  byId : IsIndex c.byId CachedSchema.id held
  byUri : IsIndex c.byUri CachedSchema.uri held

namespace Indexes

variable {c : SchemaCache} {held other : CachedSchema → Prop}

theorem congr (indexes : Indexes c held) (same : ∀ e, held e ↔ other e) : Indexes c other := by
  obtain rfl : held = other := funext fun e => propext (same e)
  exact indexes

theorem empty : Indexes ∅ fun _ => False := ⟨IsIndex.empty, IsIndex.empty⟩

variable (indexes : Indexes c held)
include indexes

theorem dropId (id : String) : Indexes (c.dropId id) fun e => held e ∧ e.id ≠ id := by
  rw [SchemaCache.dropId]
  split
  next old found =>
    obtain ⟨there, rfl⟩ := (indexes.byId _ _).mp found
    refine Indexes.congr ⟨indexes.byId.erase there, indexes.byUri.erase there⟩ fun e =>
      and_congr_right fun here => not_congr ⟨?_, indexes.byId.eq_of_key here there⟩
    exact congrArg CachedSchema.id
  next missing =>
    refine indexes.congr fun e => ⟨fun here => ⟨here, ?_⟩, And.left⟩
    rintro rfl
    cases missing.symm.trans ((indexes.byId _ _).mpr ⟨here, rfl⟩)

theorem dropUri (uri : Term) : Indexes (c.dropUri uri) fun e => held e ∧ e.uri ≠ uri := by
  rw [SchemaCache.dropUri]
  split
  next old found =>
    obtain ⟨there, rfl⟩ := (indexes.byUri _ _).mp found
    refine Indexes.congr ⟨indexes.byId.erase there, indexes.byUri.erase there⟩ fun e =>
      and_congr_right fun here => not_congr ⟨?_, indexes.byUri.eq_of_key here there⟩
    exact congrArg CachedSchema.uri
  next missing =>
    refine indexes.congr fun e => ⟨fun here => ⟨here, ?_⟩, And.left⟩
    rintro rfl
    cases missing.symm.trans ((indexes.byUri _ _).mpr ⟨here, rfl⟩)

/-- A schema put in leaves no room for others of its identifier or IRI. -/
theorem put (schema : CachedSchema) : Indexes (c.put schema) fun e =>
    e = schema ∨ held e ∧ e.id ≠ schema.id ∧ e.uri ≠ schema.uri := by
  have free := (indexes.dropId schema.id).dropUri schema.uri
  have byId := free.byId.insert (f := schema) fun e here => here.1.2
  have byUri := free.byUri.insert (f := schema) fun e here => here.2
  exact Indexes.congr ⟨byId, byUri⟩ fun e => or_congr_right and_assoc

/-- What a request brings is held afterwards, and of the others what it does not displace. -/
theorem serve (request : Request) :
    Indexes (c.serve request).2 fun e => request.Brings e ∨ held e ∧ ¬ request.Displaces e := by
  cases request with
  | insert id uri graph =>
    cases resolved : graph.paths .field with
    | error error =>
      rw [SchemaCache.serve, run_hold_of_error resolved]
      refine indexes.congr fun e => ?_
      simp [Request.Brings, Request.Displaces, resolved]
    | ok paths =>
      rw [SchemaCache.serve, run_hold_of_ok resolved]
      refine (indexes.put ⟨id, uri, graph, paths⟩).congr fun e => ?_
      rw [← Request.brings_insert resolved]
      simp only [Request.Displaces, resolved, Except.ok.injEq, exists_eq', true_and, not_or, ne_eq]
  | getById id => exact indexes.congr fun e => by simp [Request.Brings, Request.Displaces]
  | getByUri uri => exact indexes.congr fun e => by simp [Request.Brings, Request.Displaces]
  | invalidate uri =>
    exact (indexes.dropUri uri).congr fun e => by simp [Request.Brings, Request.Displaces]
  | clear => exact Indexes.empty.congr fun e => by simp [Request.Brings, Request.Displaces]

end Indexes

/-! ## Histories -/

/-- After a history the indexes hold what is kept of it. -/
theorem indexes_after (history : List Request) : Indexes (after history) (Kept history) := by
  induction history using List.reverseRecOn with
  | nil => exact Indexes.empty.congr fun e => ⟨False.elim, not_kept_nil⟩
  | append_singleton history request ih =>
    have last : after (history ++ [request]) = ((after history).serve request).2 := by
      rw [after, List.foldl_append]
      rfl
    rw [last]
    exact (ih.serve request).congr fun e => kept_append.symm

/-- After every history of requests the two indexes hold the same schemas, no two of which share an
identifier or an IRI, a schema is found under an identifier exactly if it is its own and the schema
is found under its IRI, and likewise the other way round. They are the schemas whose insertion no
later successful insertion of the same identifier or IRI, no invalidation of the IRI and no clearing
has displaced; their number is the size, and their paths are those of their graphs. A next insertion
fails exactly with the error of resolving its graph, and then changes neither index; one that succeeds
gives the schema with what its request leaves; a next invalidation tells whether the IRI was present;
looking a schema up changes nothing. -/
theorem after_exact (history : List Request) :
    let c := after history
    (∀ e, (∃ id, c.getById id = some e) ↔ ∃ uri, c.getByUri uri = some e) ∧
    (∀ id id' e f, c.getById id = some e → c.getById id' = some f →
      e.id = f.id ∨ e.uri = f.uri → e = f) ∧
    (∀ id e, c.getById id = some e ↔ c.getByUri e.uri = some e ∧ e.id = id) ∧
    (∀ uri e, c.getByUri uri = some e ↔ c.getById e.id = some e ∧ e.uri = uri) ∧
    c.size = {e | ∃ id, c.getById id = some e}.ncard ∧
    (∀ e, (∃ id, c.getById id = some e) ↔ Kept history e) ∧
    (∀ id e, c.getById id = some e → e.graph.paths .field = .ok e.paths) ∧
    (∀ id uri graph error, graph.paths .field = .error error →
      c.serve (.insert id uri graph) = (.inserted (.error error), c)) ∧
    (∀ id uri graph paths, graph.paths .field = .ok paths →
      (c.serve (.insert id uri graph)).1 = .inserted (.ok ⟨id, uri, graph, paths⟩)) ∧
    (∀ id uri graph schema next, c.insert id uri graph = .ok (schema, next) ↔
      c.serve (.insert id uri graph) = (.inserted (.ok schema), next)) ∧
    (∀ uri, (c.serve (.invalidate uri)).1 = .dropped (c.getByUri uri).isSome) ∧
    (∀ id, c.serve (.getById id) = (.found (c.getById id), c)) ∧
    ∀ uri, c.serve (.getByUri uri) = (.found (c.getByUri uri), c) := by
  intro c
  obtain ⟨byId, byUri⟩ : Indexes c (Kept history) := indexes_after history
  have heldById : ∀ e, (∃ id, c.getById id = some e) ↔ Kept history e := fun e => by
    simp only [getById, byId _ e, exists_and_left, exists_eq', and_true]
  have heldByUri : ∀ e, (∃ uri, c.getByUri uri = some e) ↔ Kept history e := fun e => by
    simp only [getByUri, byUri _ e, exists_and_left, exists_eq', and_true]
  refine ⟨fun e => (heldById e).trans (heldByUri e).symm, ?_, ?_, ?_, ?_, heldById, ?_, ?_, ?_, ?_,
    ?_, ?_, ?_⟩
  · intro id id' e f here there same
    have here := ((byId id e).mp here).1
    have there := ((byId id' f).mp there).1
    exact same.elim (byId.eq_of_key here there) (byUri.eq_of_key here there)
  · intro id e
    rw [getById, getByUri, byId, byUri, and_iff_left rfl]
  · intro uri e
    rw [getById, getByUri, byId, byUri, and_iff_left rfl]
  · simp only [heldById]
    exact byId.size_eq
  · intro id e found
    obtain ⟨-, request, -, -, brings, -⟩ := ((byId id e).mp found).1
    cases request with
    | insert id uri graph =>
      obtain ⟨-, -, same, resolved⟩ := brings
      rwa [same]
    | _ => exact brings.elim
  · intro id uri graph error failed
    rw [serve, run_hold_of_error failed]
  · intro id uri graph paths resolved
    rw [serve, run_hold_of_ok resolved]
  · intro id uri graph schema next
    simp only [insert_eq_ok, serve, Reply.inserted.injEq, Prod.ext_iff]
  · exact fun uri => rfl
  · exact fun id => rfl
  · exact fun uri => rfl

end Formulary.SchemaCache
