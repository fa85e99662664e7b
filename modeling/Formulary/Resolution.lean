import Formulary.Resolution.Walk

/-!
# Resolution of paths

The steps of every path that a schema declares. A path that leads nowhere leaves its own field out
and no other; only a modifier that is not supported is an error of the whole schema.
-/

namespace Formulary
open Std

structure Resolution where
  chains : PathMap := ∅
  /-- Fields left out, and why. -/
  malformed : List (FieldKey × Defect) := []

namespace Resolution

/-- Sorts outcomes into chains and defects. -/
def ofOutcomes (outcomes : List (FieldKey × Except Defect Chain)) : Resolution where
  chains := .ofList (outcomes.filterMap fun outcome =>
    match outcome.2 with
    | .ok chain => some (outcome.1, chain)
    | .error _ => none)
  malformed := outcomes.filterMap fun outcome =>
    match outcome.2 with
    | .ok _ => none
    | .error defect => some (outcome.1, defect)

/-- The objects that rows bind to a variable for a generator. -/
def boundTo (rows : List Solution) (generator : Term) (v : Variable) : SortedSet Term :=
  .ofList (rows.filterMap fun row =>
    if row.get? Question.generator = some generator then row.get? v else none)

/-- The steps to the scope of a generator: none where it declares no scope. -/
def scopeChain (scopes : SortedMap Term (Except Defect Chain)) (generator : Term)
    (declared : SortedSet Term) : Except Defect Chain :=
  match declared.toList with
  | [] => .ok []
  | [scope] => (scopes.get? scope).getD (.error .missingScopePath)
  | _ :: _ :: _ => .error (.ambiguous generator)

/-- The outcomes for the predicates that generators write: one step after the scope. -/
def generatedOutcomes (schema : Dataset) (scopes : SortedMap Term (Except Defect Chain)) :
    List (FieldKey × Except Defect Chain) :=
  let rows := schema.select Question.generated
  let generators : SortedSet Term := .ofList (rows.filterMap (·.get? Question.generator))
  generators.toList.flatMap fun generator =>
    let base := scopeChain scopes generator (boundTo rows generator Question.scope)
    (boundTo rows generator Question.predicate).toList.map fun predicate =>
      (.generated generator predicate, (· ++ [.forward predicate]) <$> base)

end Resolution

/-- Resolves every path of a kind. -/
def Dataset.resolve (schema : Dataset) (kind : RootKind) : Except FormError Resolution := do
  let roots ← resolveRoots schema kind
  match kind with
  | .field => return .ofOutcomes (roots.entries.map fun entry => (.field entry.1, entry.2))
  | .generator => return .ofOutcomes (Resolution.generatedOutcomes schema roots)

/-- The paths of a kind that resolve. -/
def Dataset.paths (schema : Dataset) (kind : RootKind) : Except FormError PathMap :=
  Resolution.chains <$> schema.resolve kind

end Formulary
