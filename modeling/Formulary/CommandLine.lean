import Formulary.CommandLine.Help
import Formulary.Extension
import Formulary.InstanceQuery
import Formulary.Json.Encoding
import Formulary.Json.Reader
import Formulary.NTriples.Writer
import Formulary.Text.Shown

/-!
# Command line

What each command does with the files that it is given. A run is a function of their texts: it ends
in a report, in a text to be written to a file, or in an error.
-/

namespace Formulary.CommandLine

/-- The texts of files that can be read. -/
abbrev Files := String → Option String

/-- What a run prints. -/
structure Report where
  out : String := ""
  err : String := ""

inductive Outcome where
  | report (printed : Report)
  | write (path content : String)
  | failure (message : String)
  /-- The words of the command line make no invocation. -/
  | misuse

/-! ## Input -/

/-- The last component of a path that names something. -/
def fileName? (path : String) : Option (List Char) := do
  let parts := (pieces (· == '/') path.toList).filter fun part => part != [] && part != ['.']
  let last ← parts.getLast?
  if last = ['.', '.'] then none else some last

/-- What stands behind the last full stop of a file name, unless nothing stands before it. -/
def extension? (path : String) : Option String := do
  let name ← fileName? path
  let ending := name.reverse.takeWhile (· != '.')
  if ending.length + 1 < name.length then some (String.ofList ending.reverse) else none

/-- The format that is asked for, or that of the file name, or Turtle. -/
def formatOf (path : String) (format : Option Format) : Format :=
  (format.or ((extension? path).bind Format.ofExtension?)).getD .turtle

def readText (files : Files) (path : String) : Except String String :=
  match files path with
  | some text => .ok text
  | none => .error ("failed to read " ++ path)

def readDataset (files : Files) (format : Option Format) (path : String) :
    Except String Dataset := do
  let text ← readText files path
  (Document.read (formatOf path format) text).mapError fun _ => "failed to parse " ++ path

/-- The configuration in a file, or the usual one. -/
def readConfig (files : Files) : Option String → Except String Config
  | some path => do
    let text ← readText files path
    match (Json.read? text).bind Config.ofJson? with
    | some config => return config
    | none => throw ("invalid config " ++ path)
  | none => .ok {}

/-- The IRI that an argument names, with or without angle brackets. -/
def iriArgument (value what : String) : Except String Term :=
  let start := (trimBlank value.toList).dropWhile (· == '<')
  let iri := (start.reverse.dropWhile (· == '>')).reverse
  if iri.isEmpty || iri.any isBlank then
    .error (what ++ " must be an IRI, got " ++ shown (String.ofList iri))
  else .ok (.iri (String.ofList iri))

/-- The root that an argument names: a variable after a question mark, or an IRI. -/
def rootArgument (value : String) : Except String Slot :=
  match value.toList with
  | ['?'] => .error "--root variable needs a name"
  | '?' :: name => .ok (.var ⟨String.ofList name⟩)
  | _ => Slot.term <$> iriArgument value "--root"

/-! ## Commands -/

/-- A value in JSON on lines of its own. -/
def jsonReport (value : Json) (err : String) : Report := { out := value.text ++ "\n", err }

/-- A resolved path in JSON. -/
def pathRow (entry : FieldKey × Chain) : Json := .object [("field", entry.1.toJson),
  ("path", .string entry.2.text), ("steps", entry.2.toJson)]

def paths (json : Bool) (r : Resolution) : Report :=
  let err := String.join (r.malformed.map fun entry =>
    "skipped " ++ entry.1.text ++ ": " ++ entry.2.message ++ "\n")
  if json then jsonReport (.array (r.chains.entries.map pathRow)) err
  else
    { out := String.join (r.chains.entries.map fun entry =>
        entry.1.text ++ "\t" ++ entry.2.text ++ "\n")
      err }

/-- A field on one line: order, IRI, label and path. -/
def fieldLine (f : FieldInfo) : String :=
  (f.order.map (toString ·.toInt)).getD "-" ++ "\t" ++ f.uri.text ++ "\t" ++ f.label.getD "" ++ "\t" ++
    (f.path.map Chain.text).getD "(malformed)" ++ "\n"

def fields (json : Bool) (found : List FieldInfo) : Report :=
  if json then jsonReport (.array (found.map FieldInfo.toJson)) ""
  else { out := String.join (found.map fieldLine) }

def matched (json : Bool) (found : Graph) : Report :=
  if json then jsonReport found.toJson ""
  else { out := found.nTriples, err := "ok " ++ toString found.size ++ " triples matched\n" }

def change (json : Bool) (c : Change) : Report :=
  if json then jsonReport c.toJson ""
  else match c with
    | .none => { err := "ok snapshots are equal, nothing to write\n" }
    | .update delta statement =>
      { out := statement ++ "\n"
        err := "ok removed=" ++ toString delta.removed.size ++ " added=" ++
          toString delta.added.size ++ "\n" }

/-- The query of a command line, given the schema. -/
def queryOf (schema : Dataset) (root type : String) (deletes : Bool) :
    Except String InstanceQuery := do
  let chains ← (schema.paths .field).mapError FormError.message
  let root ← rootArgument root
  let type ← iriArgument type "--type"
  return .build chains root type deletes

/-- What a command comes to. -/
def execute (files : Files) (i : Invocation) (config : Config) : Except String Outcome :=
  match i.command with
  | .paths schema generators => do
    let schema ← readDataset files i.format schema
    let kind := if generators then .generator else .field
    let resolution ← (schema.resolve kind).mapError FormError.message
    return .report (paths i.json resolution)
  | .fields schema => do
    let schema ← readDataset files i.format schema
    let found ← schema.fields.mapError FormError.message
    return .report (fields i.json found)
  | .query schema root type deletes data => do
    let schema ← readDataset files i.format schema
    let query ← queryOf schema root type deletes
    match data with
    | none => return .report { out := query.text }
    | some data =>
      let data ← readDataset files i.format data
      return .report (matched i.json (query.matched data))
  | .delta old new => do
    let oldText ← readText files old
    let newText ← readText files new
    let found ← (Change.between (formatOf old i.format) oldText newText config.target).mapError
      DocumentError.message
    return .report (change i.json found)
  | .merge base extension uri out => do
    let base ← readDataset files i.format base
    let extension ← readDataset files i.format extension
    let uri ← iriArgument uri "--uri"
    let merged ← (Formulary.merge config base extension uri).mapError FormError.message
    let text := merged.turtle config.namespaces
    match out with
    | some path => return .write path text
    | none => return .report { out := text }

/-- The files that an invocation reads. -/
def Invocation.inputs (i : Invocation) : List String :=
  i.config.toList ++
    match i.command with
    | .paths schema _ => [schema]
    | .fields schema => [schema]
    | .query schema _ _ _ data => schema :: data.toList
    | .delta old new => [old, new]
    | .merge base extension _ _ => [base, extension]

/-- A whole run: the configuration is read before anything else. -/
def Invocation.run (i : Invocation) (files : Files) : Outcome :=
  match readConfig files i.config >>= execute files i with
  | .ok outcome => outcome
  | .error message => .failure message

/-- The files that have to be read for a request. -/
def Request.inputs : Request → List String
  | .run i => i.inputs
  | _ => []

/-- What a request comes to. -/
def Request.answer (r : Request) (files : Files) : Outcome :=
  match r with
  | .run i => i.run files
  | .help command full => .report { out := helpText command full }
  | .version => .report { out := versionText }

/-- What is printed, and the exit code, once the text of an outcome has been written or not. -/
def Outcome.finish (o : Outcome) (written : Bool) : Report × Nat :=
  match o with
  | .report printed => (printed, 0)
  | .write path _ =>
    if written then ({ err := "wrote " ++ path ++ "\n" }, 0)
    else ({ err := "Error: failed to write " ++ path ++ "\n" }, 1)
  | .failure message => ({ err := "Error: " ++ message ++ "\n" }, 1)
  | .misuse => ({ err := "error: unexpected or missing argument\n" }, 2)

end Formulary.CommandLine
