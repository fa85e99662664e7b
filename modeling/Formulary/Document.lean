import Formulary.Dataset
import Formulary.NTriples.Reader
import Formulary.RdfXml.Reader
import Formulary.Turtle.Reader

/-!
# Documents

The formats of documents, and reading a document into a dataset.
-/

namespace Formulary

inductive Format where
  | nTriples
  | turtle
  | rdfXml
deriving DecidableEq, Repr, Inhabited

namespace Format

def name : Format → String
  | .nTriples => "ntriples"
  | .turtle => "turtle"
  | .rdfXml => "rdfxml"

/-- The format that a file name extension stands for, in capital or small letters. -/
def ofExtension? (extension : String) : Option Format :=
  let extension := String.ofList (extension.toList.map Char.toLower)
  if ["nt", "ntriples"].contains extension then some .nTriples
  else if ["ttl", "turtle"].contains extension then some .turtle
  else if ["rdf", "owl", "xml"].contains extension then some .rdfXml
  else none

end Format

/-- Why there is no dataset for a document. -/
inductive DocumentError where
  | unreadable (format : Format) (fault : Document.Fault)
  | unsupportedFormat (name : String)
deriving DecidableEq, Repr

/-- What is wrong with a document. -/
def Document.Fault.message : Document.Fault → String
  | .malformed => "malformed text"
  | .quotedTriple => "Sink failed: unsupported RDF term kind: Triple"

def DocumentError.message : DocumentError → String
  | .unreadable format fault => "failed to parse " ++ format.name ++ " document: " ++ fault.message
  | .unsupportedFormat name => "unsupported RDF format: " ++ name

/-- The format of a name, or of an extension. -/
def Format.ofName (name : String) : Except DocumentError Format :=
  if name = Format.rdfXml.name then .ok .rdfXml
  else match ofExtension? name with
    | some format => .ok format
    | none => .error (.unsupportedFormat name)

namespace Document

/-- The triples that the text of a document holds. -/
def triples (format : Format) (text : List Char) : Except Fault Graph :=
  match format with
  | .nTriples => NTriples.read text
  | .turtle => Turtle.read text
  | .rdfXml => RdfXml.read text

/-- Reads a whole document into the default graph of a dataset of its own. -/
def read (format : Format) (text : String) : Except DocumentError Dataset :=
  match triples format text.toList with
  | .ok found => .ok (.ofGraph found)
  | .error fault => .error (.unreadable format fault)

end Document
end Formulary
