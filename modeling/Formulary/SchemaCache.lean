import Formulary.Resolution

/-!
# Schema cache

Schemas with their field paths resolved once, found by identifier or by IRI. No two of them share
either.
-/

namespace Formulary

structure CachedSchema where
  id : String
  uri : Term
  graph : Dataset
  paths : PathMap
deriving DecidableEq

structure SchemaCache where
  byId : SortedMap String CachedSchema := ∅
  byUri : SortedMap Term CachedSchema := ∅

namespace SchemaCache

instance : EmptyCollection SchemaCache := ⟨{}⟩
instance : Inhabited SchemaCache := ⟨∅⟩

def getById (c : SchemaCache) (id : String) : Option CachedSchema := c.byId.get? id

def getByUri (c : SchemaCache) (uri : Term) : Option CachedSchema := c.byUri.get? uri

def size (c : SchemaCache) : Nat := c.byId.size

def isEmpty (c : SchemaCache) : Bool := c.size == 0

/-- Drops the schema of an identifier. -/
def dropId (c : SchemaCache) (id : String) : SchemaCache :=
  match c.getById id with
  | some old => ⟨c.byId.erase id, c.byUri.erase old.uri⟩
  | none => c

/-- Drops the schema of an IRI. -/
def dropUri (c : SchemaCache) (uri : Term) : SchemaCache :=
  match c.getByUri uri with
  | some old => ⟨c.byId.erase old.id, c.byUri.erase uri⟩
  | none => c

/-- Resolves and holds a schema, in place of any with the same identifier or IRI. What has been
dropped stays dropped when a later step fails, so the paths are resolved first. -/
def hold (id : String) (uri : Term) (graph : Dataset) :
    ExceptT FormError (StateM SchemaCache) CachedSchema := do
  let paths ← MonadExcept.ofExcept (graph.paths .field)
  let schema : CachedSchema := { id, uri, graph, paths }
  modify (·.dropId id)
  modify (·.dropUri uri)
  modify fun c => ⟨c.byId.insert id schema, c.byUri.insert uri schema⟩
  return schema

/-- The schema and the cache that holds it, if its paths are resolved. -/
def insert (c : SchemaCache) (id : String) (uri : Term) (graph : Dataset) :
    Except FormError (CachedSchema × SchemaCache) :=
  let (outcome, after) := ((hold id uri graph).run c).run
  outcome.map (·, after)

/-- Drops the schema of an IRI; tells whether there was one. -/
def invalidate (c : SchemaCache) (uri : Term) : Bool × SchemaCache :=
  ((c.getByUri uri).isSome, c.dropUri uri)

end SchemaCache
end Formulary
