import Formulary.Config
import Formulary.FormError
import Formulary.Turtle.Writer

/-!
# Extensions

Folding an extension into the form that it extends. The extension takes the place of that form: it
keeps its own identifier, its values replace those of the form, and every link to the form but its
own becomes a link to it.
-/

namespace Formulary

/-- The predicates of a form whose values an extension may replace. -/
def replaceable : List String := [FormNs.targetType, FormNs.targetLabel, Ext.uriPrefix]

/-- The form that an extension says it extends. -/
def Dataset.extendedForm (extension : Dataset) (uri : Term) : Except FormError Term :=
  match extension.objectOf uri (.iri Ext.extendsForm) with
  | some form => if form.isIri then .ok form else .error (.missingRelation uri Ext.extendsForm)
  | none => .error (.missingRelation uri Ext.extendsForm)

namespace Graph

/-- Changes the picked triples and keeps the others. -/
def alter (g : Graph) (picked : Triple → Bool) (change : Triple → Triple) : Graph :=
  (g.filter (!picked ·)).insertMany ((g.toList.filter picked).map change)

/-- Takes out all triples of a subject and predicate. -/
def without (g : Graph) (subject : Term) (predicate : String) : Graph :=
  g.filter fun t => !(t.subject == subject && t.predicate == .iri predicate)

/-- Whether a subject has a value for a predicate. -/
def sets (g : Graph) (subject : Term) (predicate : String) : Bool :=
  g.toList.any fun t => t.subject == subject && t.predicate == .iri predicate

/-- Takes out what the extension replaces of a form, and the form's own identifier. -/
def withoutReplaced (g extension : Graph) (form uri : Term) : Graph :=
  ((replaceable.filter (extension.sets uri)).foldl (fun g predicate => g.without form predicate)
    g).without form Mu.uuid

/-- Makes groups that extend a group belong to it. -/
def withGroups (g : Graph) : Graph :=
  g.alter (·.predicate == .iri Ext.extendsGroup) fun t => { t with predicate := .iri Sh.group }

/-- Makes the extension a form. -/
def withForm (g : Graph) (uri : Term) : Graph :=
  g.alter (· == ⟨uri, .iri Rdf.type, .iri FormNs.extension⟩) fun _ =>
    ⟨uri, .iri Rdf.type, .iri FormNs.form⟩

/-- Gives everything said of a form to the extension. -/
def withSubject (g : Graph) (form uri : Term) : Graph :=
  g.alter (·.subject == form) fun t => { t with subject := uri }

/-- Leads every link to a form to the extension, except the one that says what it extends. -/
def withObject (g : Graph) (form uri : Term) : Graph :=
  g.alter (fun t => t.object == form &&
    !(t.subject == uri && t.predicate == .iri Ext.extendsForm)) fun t => { t with object := uri }

/-- Folds an extension into the form that it extends. -/
def folded (g extension : Graph) (form uri : Term) : Graph :=
  ((((g.withoutReplaced extension form uri).withGroups).withForm uri).withSubject form uri).withObject
    form uri

end Graph

/-- The schema of an extension and of the form that it extends. Both are loaded into the graph set
aside for merging, their blank nodes kept apart, and the result is detached from it. -/
def merge (config : Config) (base extension : Dataset) (uri : Term) : Except FormError Dataset := do
  let form ← extension.extendedForm uri
  let place := some config.mergePlace
  let scratch := ((∅ : Dataset).insertScoped base place "base_").insertScoped extension place "ext_"
  let merged := (scratch.graph place).folded (extension.graph none) form uri
  return ((scratch.setGraph place merged).takeGraph place).1

/-- The merged schema of two documents in Turtle. -/
def mergeTexts (config : Config) (format : Format) (base extension : String) (uri : Term) :
    Except FormError String := do
  let read := fun text => (Document.read format text).mapError FormError.document
  let base ← read base
  let extension ← read extension
  let merged ← merge config base extension uri
  return merged.turtle config.namespaces

end Formulary
