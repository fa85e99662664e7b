import Formulary.CommandLine.Arguments
import Formulary.Document

/-!
# Invocations

The commands and what each of them takes. Common options may stand before or after the name of the
command; what stands after it counts.
-/

namespace Formulary.CommandLine

inductive Command where
  /-- Resolves the paths of a schema. -/
  | paths (schema : String) (generators : Bool)
  /-- Lists the fields of a schema. -/
  | fields (schema : String)
  /-- Prints the query for an instance, or what it matches. -/
  | query (schema root type : String) (deletes : Bool) (data : Option String)
  /-- Compares two snapshots. -/
  | delta (old new : String)
  /-- Folds an extension into the form that it extends. -/
  | merge (base extension uri : String) (out : Option String)
deriving DecidableEq, Repr

structure Invocation where
  format : Option Format := none
  config : Option String := none
  json : Bool := false
  command : Command

/-! ## What a command takes -/

/-- What is known of a command. -/
structure Topic where
  name : String
  /-- What the command does, without a full stop. -/
  about : String
  /-- What else there is to say. -/
  details : Option String := none
  /-- What its words stand for, in their order. -/
  words : List String
  /-- What it knows besides the common settings. -/
  settings : List Setting := []

namespace Topic

/-- The settings of every command. -/
def common : List Setting :=
  [{ name := "format", value := some "FORMAT"
     about := "Input format (turtle, ntriples, rdfxml); inferred from the file extension otherwise" },
   { name := "config", value := some "CONFIG"
     about := "JSON config file (target graph, merge graph, prefixes)" },
   { name := "json", about := "Print machine-readable JSON instead of text" },
   { name := "verbose", letter := some 'v', about := "Log at debug level" }]

def all : List Topic :=
  [{ name := "paths", words := ["SCHEMA"]
     about := "Resolve every field path a schema declares"
     details := some "Fields with malformed paths are reported on stderr and left out."
     settings := [{ name := "generators"
                    about := "Resolve generator prototype predicates instead of fields" }] },
   { name := "fields", words := ["SCHEMA"]
     about := "List declared fields with label, display type, order and group" },
   { name := "query", words := ["SCHEMA"]
     about := "Print the statement extracting (or deleting) one instance"
     settings :=
      [{ name := "root", value := some "ROOT", required := true
         about := "Instance IRI, or `?name` for every instance of the type" },
       { name := "type", value := some "TARGET_TYPE", required := true
         about := "Target type of the instance" },
       { name := "delete"
         about := "Emit the deletion statement instead of the extraction one" },
       { name := "data", value := some "DATA"
         about := "Evaluate against this instance data and print the matched triples" }] },
   { name := "delta", words := ["OLD", "NEW"]
     about := "Diff two instance snapshots into an update statement" },
   { name := "merge", words := ["BASE", "EXTENSION"]
     about := "Merge an extension schema into the base form it extends"
     settings :=
      [{ name := "uri", value := some "URI", required := true
         about := "IRI of the extension form" },
       { name := "out", value := some "OUT"
         about := "Write the merged schema here instead of stdout" }] }]

def find? (name : String) : Option Topic := all.find? (·.name == name)

/-- The settings that the words after the name of a command may give. -/
def level (t : Topic) : Level := ⟨t.settings ++ common, false⟩

end Topic

/-! ## Reading -/

namespace Invocation

/-- A path, which is not empty. -/
def path? (value : String) : Option String := if value.isEmpty then none else some value

/-- A path that may be left out, but is not empty. -/
def optionalPath? : Option String → Option (Option String)
  | some value => some <$> path? value
  | none => some none

/-- A format that may be left out. -/
def format? : Option String → Option (Option Format)
  | some name => (Format.ofName name).toOption.map some
  | none => some none

/-- The command of a name with its arguments. -/
def command? (name : String) (a : Arguments) : Option Command := do
  let words ← a.words.mapM path?
  match name, words with
  | "paths", [schema] => return .paths schema (a.hasFlag "generators")
  | "fields", [schema] => return .fields schema
  | "query", [schema] =>
    let root ← a.option? "root"
    let type ← a.option? "type"
    let data ← optionalPath? (a.option? "data")
    return .query schema root type (a.hasFlag "delete") data
  | "delta", [old, new] => return .delta old new
  | "merge", [base, extension] =>
    let uri ← a.option? "uri"
    let out ← optionalPath? (a.option? "out")
    return .merge base extension uri out
  | _, _ => none

/-- The invocation of a command, with what stands before its name and what stands after it. -/
def ofArguments? (name : String) (outer inner : Arguments) : Option Invocation := do
  let outerFormat ← format? (outer.option? "format")
  let innerFormat ← format? (inner.option? "format")
  let outerConfig ← optionalPath? (outer.option? "config")
  let innerConfig ← optionalPath? (inner.option? "config")
  return {
    format := innerFormat.or outerFormat
    config := innerConfig.or outerConfig
    json := inner.hasFlag "json" || outer.hasFlag "json"
    command := ← command? name inner }

end Invocation

/-- What the words of a command line want. -/
inductive Request where
  | run (i : Invocation)
  /-- To be told about the program, or about one of its commands. -/
  | help (command : Option String) (full : Bool)
  | version

namespace Request

/-- The answer to a question that was asked about a command, or about none. -/
def ofQuestion (command : Option String) : Question → Request
  | .help full => .help command full
  | .version => .version

/-- What the words after a command's name want. -/
def ofCommand? (outer : Arguments) (name : String) (words : List String) : Option Request := do
  let topic ← Topic.find? name
  let (inner, _) ← Arguments.sort? topic.level words {}
  match inner.asked with
  | some question => return ofQuestion (some name) question
  | none => return .run (← Invocation.ofArguments? name outer inner)

/-- What the words after `help` want: at most one of them names a command. -/
def ofTopics? : List String → Option Request
  | [] => some (.help none true)
  | [name] =>
    if name = "help" || (Topic.find? name).isSome then some (.help (some name) true) else none
  | _ => none

/-- What the words of a command line want, if they want anything. -/
def ofWords? (words : List String) : Option Request := do
  let (outer, rest) ← Arguments.sort? ⟨Topic.common, true⟩ words {}
  match outer.asked, rest with
  | some question, _ => return ofQuestion none question
  | none, [] => none
  | none, "help" :: names => ofTopics? names
  | none, name :: rest => ofCommand? outer name rest

end Request
end Formulary.CommandLine
