import Formulary.Pattern

/-!
# SPARQL text of patterns

One pattern a line, indented by two blanks for each depth, and each optional group in a block of
its own. Terms have their N-Triples form, which is also SPARQL.
-/

namespace Formulary

def Variable.text (v : Variable) : String := "?" ++ v.name

def Slot.text : Slot → String
  | .var v => v.text
  | .term t => t.text

def Verb.text : Verb → String
  | .term t => t.text
  | .var v => v.text
  | .oneOrMore t => t.text ++ "+"

def TriplePattern.text (p : TriplePattern) : String :=
  p.subject.text ++ " " ++ p.verb.text ++ " " ++ p.object.text ++ " ."

/-- Two blanks for each depth. -/
def indent (depth : Nat) : String := String.ofList (List.replicate (2 * depth) ' ')

/-- An indented line. -/
def line (depth : Nat) (text : String) : String := indent depth ++ text ++ "\n"

/-- One line for each pattern. -/
def templateText (template : List TriplePattern) (depth : Nat) : String :=
  String.join (template.map fun p => line depth p.text)

namespace Group

mutual

/-- The lines of a group without the braces around it. -/
def body (depth : Nat) : Group → String
  | ⟨patterns, optionals⟩ => templateText patterns depth ++ optionalsBody depth optionals

/-- The blocks of optional groups. -/
def optionalsBody (depth : Nat) : List Group → String
  | [] => ""
  | group :: rest => line depth "OPTIONAL \x7b" ++ group.body (depth + 1) ++ line depth "\x7d" ++
      optionalsBody depth rest

end

/-- The group in braces, its lines one step in. -/
def text (group : Group) : String := "\x7b\n" ++ group.body 1 ++ "\x7d"

end Group
end Formulary
