import Formulary.CommandLine.Invocation

/-!
# Help

What the program says about itself and its commands: how each is used, and a line for every word and
setting. A command with more to say says it in full, each line then under the name that it belongs to.
-/

namespace Formulary.CommandLine

/-- A text with blanks after it up to a width. -/
def padded (width : Nat) (text : String) : String :=
  text ++ String.ofList (List.replicate (width - text.length) ' ')

/-- The width of the widest text. -/
def widest (texts : List String) : Nat := (texts.map String.length).foldl max 0

/-- Names with what they stand for, in two columns. -/
def columns (rows : List (String × String)) : String :=
  let width := widest (rows.map Prod.fst) + 2
  "\n".intercalate (rows.map fun row => padded width row.1 ++ row.2)

/-- Names with what they stand for, each on a line of its own. -/
def stacked (rows : List (String × String)) : String :=
  "\n\n".intercalate (rows.map fun row => row.1 ++ "\n          " ++ row.2)

namespace Setting

/-- How a setting is given. -/
def usage (s : Setting) : String := "--" ++ s.name ++ s.value.elim "" (" <" ++ · ++ ">")

/-- A setting and what it is about, its letter before its name. -/
def row (s : Setting) : String × String :=
  ((s.letter.elim "      " fun letter => "  -" ++ letter.toString ++ ", ") ++ s.usage, s.about)

/-- The flag that asks for help. -/
def help (about : String) : Setting := { name := "help", letter := some 'h', about }

def version : Setting := { name := "version", letter := some 'V', about := "Print version" }

end Setting

namespace Topic

/-- The settings of a command and the common ones by their places among themselves, and those with
the same place by name. -/
def settingRows (own : List Setting) : List (String × String) :=
  let placed := own.zipIdx ++ common.zipIdx
  let sorted := placed.mergeSort fun a b => a.2 < b.2 || (a.2 == b.2 && a.1.name ≤ b.1.name)
  sorted.map fun entry => entry.1.row

/-- A word of a command as help shows it. -/
def wordRow (word : String) : String × String := ("  <" ++ word ++ ">", "")

def usage (t : Topic) : String :=
  " ".intercalate (["formgraph", t.name, "[OPTIONS]"] ++
    (t.settings.filter Setting.required).map Setting.usage ++ t.words.map fun word => "<" ++ word ++ ">")

/-- What is said about a command. -/
def text (t : Topic) (full : Bool) : String :=
  let (about, table, asking) :=
    match t.details, full with
    | none, _ => (t.about, columns, "Print help")
    | some _, false => (t.about, columns, "Print help (see more with '--help')")
    | some details, true =>
      (t.about ++ ".\n\n" ++ details, stacked, "Print help (see a summary with '-h')")
  about ++ "\n\nUsage: " ++ t.usage ++ "\n\nArguments:\n" ++ table (t.words.map wordRow) ++
    "\n\nOptions:\n" ++ table (settingRows t.settings ++ [(Setting.help asking).row]) ++ "\n"

end Topic

/-- What the program says about asking for help. -/
def helpAbout : String := "Print this message or the help of the given subcommand(s)"

/-- What is said about the program. -/
def programHelp : String :=
  "formgraph: RDF form schemas, instance queries and snapshot deltas\n\n" ++
    "Usage: formgraph [OPTIONS] <COMMAND>\n\nCommands:\n" ++
    columns (Topic.all.map (fun t => ("  " ++ t.name, t.about)) ++ [("  help", helpAbout)]) ++
    "\n\nOptions:\n" ++
    columns (Topic.settingRows [] ++ [(Setting.help "Print help").row, Setting.version.row]) ++ "\n"

/-- What is said about a command, or about the program where none is named. -/
def helpText (command : Option String) (full : Bool) : String :=
  match command.bind Topic.find?, command with
  | some topic, _ => topic.text full
  | none, some _ => helpAbout ++ "\n\nUsage: formgraph help [COMMAND]...\n\nArguments:\n" ++
      columns [("  [COMMAND]...", "Print help for the subcommand(s)")] ++ "\n"
  | none, none => programHelp

def versionText : String := "formgraph 0.1.0\n"

end Formulary.CommandLine
