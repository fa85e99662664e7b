import Formulary.Text.Scan

/-!
# Arguments

The words of a command line sorted into options with their values, flags, and the other words. None
of them may be given twice.
-/

namespace Formulary.CommandLine

/-- An option, which takes a value, or a flag. -/
structure Setting where
  name : String
  about : String
  /-- What its value is called, unless it is a flag. -/
  value : Option String := none
  letter : Option Char := none
  required : Bool := false

/-- What a word may ask for instead of a run. -/
inductive Question where
  | help (full : Bool)
  | version
deriving DecidableEq, Repr

/-- The settings that a level of a command line knows. -/
structure Level where
  settings : List Setting
  /-- Whether the first other word names a command, to which all that follows belongs. -/
  hasCommands : Bool := false

namespace Level

def hasOption (level : Level) (name : String) : Bool :=
  level.settings.any fun s => s.name == name && s.value.isSome

def hasFlag (level : Level) (name : String) : Bool :=
  level.settings.any fun s => s.name == name && s.value.isNone

/-- The question that a word asks. Only the outer level knows the version. -/
def question? (level : Level) : String → Option Question
  | "-h" => some (.help false)
  | "--help" => some (.help true)
  | "-V" | "--version" => if level.hasCommands then some .version else none
  | _ => none

/-- The name of an option or flag, and the value that is written in the same word. -/
def nameOf? (level : Level) (word : String) : Option (String × Option String) :=
  match word.toList with
  | ['-', letter] =>
    (level.settings.find? fun s => s.letter == some letter).map fun s => (s.name, none)
  | '-' :: '-' :: text =>
    match cutAt? ['='] text with
    | some (name, value) => some (String.ofList name, some (String.ofList value))
    | none => some (String.ofList text, none)
  | _ => none

end Level

structure Arguments where
  options : List (String × String) := []
  flags : List String := []
  words : List String := []
  asked : Option Question := none

namespace Arguments

def option? (a : Arguments) (name : String) : Option String := a.options.lookup name

def hasFlag (a : Arguments) (name : String) : Bool := a.flags.contains name

/-- Adds the value of an option that is known and not given yet. -/
def withOption? (a : Arguments) (level : Level) (name value : String) : Option Arguments :=
  if level.hasOption name && (a.option? name).isNone then
    some { a with options := a.options ++ [(name, value)] }
  else none

/-- Adds a flag that is not given yet. -/
def withFlag? (a : Arguments) (name : String) : Option Arguments :=
  if a.hasFlag name then none else some { a with flags := a.flags ++ [name] }

/-- Whether a word is an option or a flag. A hyphen alone is not. -/
def isMarked (word : String) : Bool :=
  match word.toList with
  | '-' :: _ :: _ => true
  | _ => false

/-- Sorts words up to one that asks a question. Gives those that are left for a command. -/
def sort? (level : Level) : List String → Arguments → Option (Arguments × List String)
  | [], a => some (a, [])
  | word :: rest, a =>
    if word = "--" then
      if level.hasCommands then none else some ({ a with words := a.words ++ rest }, [])
    else if !isMarked word then
      if level.hasCommands then some (a, word :: rest)
      else sort? level rest { a with words := a.words ++ [word] }
    else
      match level.question? word, level.nameOf? word with
      | some question, _ => some ({ a with asked := some question }, [])
      | none, none => none
      | none, some (name, some value) => (a.withOption? level name value).bind (sort? level rest)
      | none, some (name, none) =>
        if level.hasFlag name then (a.withFlag? name).bind (sort? level rest)
        else
          match rest with
          | [] => none
          | value :: others =>
            if isMarked value then none
            else (a.withOption? level name value).bind (sort? level others)

end Arguments
end Formulary.CommandLine
