import Formulary.Finite.SortedMap
import Formulary.Namespaces
import Formulary.Term

/-!
# Configuration

The graphs that updates and merges work in, and the namespaces that schemas are written with.
-/

namespace Formulary

structure Config where
  targetGraph : String := "http://mu.semte.ch/graphs/application"
  mergeGraph : String := "http://mu.semte.ch/graphs/form-merge"
  prefixes : SortedMap String String := .ofList [("dct", Dct.ns), ("ext", Ext.ns),
    ("form", FormNs.ns), ("mu", Mu.ns), ("rdf", Rdf.ns), ("sh", Sh.ns), ("xsd", Xsd.ns)]

namespace Config

instance : Inhabited Config := ⟨{}⟩

def target (c : Config) : Term := .iri c.targetGraph

def mergePlace (c : Config) : Term := .iri c.mergeGraph

/-- The namespaces in the order of their labels. -/
def namespaces (c : Config) : Namespaces := ⟨c.prefixes.entries⟩

end Config
end Formulary
