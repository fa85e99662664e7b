import Formulary.Json

/-!
# Records in JSON

Reading records with named members. A record may be written as an object, whose other members are
ignored, or as an array of its members in their order; a value of one of several kinds names its
kind first.
-/

namespace Formulary

namespace Json

def string? : Json → Option String
  | .string value => some value
  | _ => none

/-- The items of an array, each decoded. -/
def list? {α : Type} (decode : Json → Option α) : Json → Option (List α)
  | .array items => items.mapM decode
  | _ => none

/-- A name, which may also be written as the only member of an object, with null. -/
def name? : Json → Option String
  | .string name => some name
  | .object [(name, .null)] => some name
  | _ => none

/-- How often a member of a name occurs. -/
def occurrences (name : String) (members : List (String × Json)) : Nat :=
  (members.filter (·.1 == name)).length

end Json

/-- The members of a record that are given. -/
structure Record where
  /-- Whether it is written as an array, so that members are left out only at the end. -/
  positional : Bool
  members : List (String × Json)

namespace Record

/-- The record that a value is. No member may be given twice, and no array may be too long. -/
def ofJson? (names : List String) : Json → Option Record
  | .object members =>
    if names.all fun name => Json.occurrences name members ≤ 1 then some ⟨false, members⟩ else none
  | .array items => if items.length ≤ names.length then some ⟨true, names.zip items⟩ else none
  | _ => none

/-- A member that must be given. -/
def need? {α : Type} (r : Record) (name : String) (decode : Json → Option α) : Option α :=
  (r.members.lookup name).bind decode

/-- A member that may be null, or left out of an object. -/
def optional? {α : Type} (r : Record) (name : String) (decode : Json → Option α) :
    Option (Option α) :=
  match r.members.lookup name with
  | none => if r.positional then none else some none
  | some .null => some none
  | some value => some <$> decode value

/-- A member that has a value of its own where it is left out. -/
def orElse? {α : Type} (r : Record) (name : String) (decode : Json → Option α) (default : α) :
    Option α :=
  match r.members.lookup name with
  | none => some default
  | some value => decode value

end Record

namespace Json

/-- The kind of a value, and the value without its kind. -/
def kind? : Json → Option (Json × Json)
  | .object members =>
    if occurrences "kind" members = 1 then do
      return (← members.lookup "kind", .object (members.filter (·.1 != "kind")))
    else none
  | .array (kind :: rest) => some (kind, .array rest)
  | _ => none

/-- The name of a kind inside a value that has a kind itself, where the place of the kind among all
kinds may be given instead. -/
def innerKind? (kinds : List String) : Json → Option String
  | .number place => (kinds.zipIdx.find? fun entry => toString entry.2 == place).map Prod.fst
  | kind => kind.string?

end Json

end Formulary
