import Formulary.Text.CodePoint

/-!
# JSON

Values of JSON, and their text over indented lines. Numbers are kept as they are written, and so are
values that no text can stand for.
-/

namespace Formulary

inductive Json where
  | null
  | bool (value : Bool)
  | number (text : String)
  | string (value : String)
  | array (items : List Json)
  /-- Members in the order in which they are written. -/
  | object (members : List (String × Json))
  /-- A string, or an object with a member name, in which half of a surrogate pair stands for no
  character. It is kept as it is written. -/
  | illegible (text : String)
deriving Inhabited

namespace Json

def ofInt (n : Int) : Json := .number (toString n)

def ofOption {α : Type} (encode : α → Json) : Option α → Json
  | some value => encode value
  | none => .null

/-! ## Text -/

/-- A hexadecimal digit. -/
def hexDigit (n : Nat) : Char := (Nat.digitChar (n % 16))

/-- A character as it is written inside quotes. -/
def escape (c : Char) : List Char :=
  match c with
  | '"' => ['\\', '"']
  | '\\' => ['\\', '\\']
  | '\n' => ['\\', 'n']
  | '\r' => ['\\', 'r']
  | '\t' => ['\\', 't']
  | '\x08' => ['\\', 'b']
  | '\x0c' => ['\\', 'f']
  | c =>
    if c.toNat < 32 then ['\\', 'u', '0', '0', hexDigit (c.toNat / 16), hexDigit c.toNat]
    else [c]

/-- A string in quotes. -/
def quoted (value : String) : String :=
  "\"" ++ String.ofList (value.toList.flatMap escape) ++ "\""

/-- The start of a line, two blanks for each depth. -/
def newLine (depth : Nat) : String := "\n" ++ String.ofList (List.replicate (2 * depth) ' ')

mutual

/-- The text of a value inside so many others, each item on a line of its own. -/
def textAt (depth : Nat) : Json → String
  | .null => "null"
  | .bool value => if value then "true" else "false"
  | .number text => text
  | .string value => quoted value
  | .illegible text => text
  | .array [] => "[]"
  | .array (item :: rest) =>
    "[" ++ newLine (depth + 1) ++ textAt (depth + 1) item ++ itemsText (depth + 1) rest ++
      newLine depth ++ "]"
  | .object [] => "\x7b\x7d"
  | .object (member :: rest) =>
    "\x7b" ++ newLine (depth + 1) ++ memberText (depth + 1) member ++ membersText (depth + 1) rest ++
      newLine depth ++ "\x7d"

/-- Further items of an array. -/
def itemsText (depth : Nat) : List Json → String
  | [] => ""
  | item :: rest => "," ++ newLine depth ++ textAt depth item ++ itemsText depth rest

/-- A member of an object. -/
def memberText (depth : Nat) : String × Json → String
  | (name, value) => quoted name ++ ": " ++ textAt depth value

/-- Further members of an object. -/
def membersText (depth : Nat) : List (String × Json) → String
  | [] => ""
  | member :: rest => "," ++ newLine depth ++ memberText depth member ++ membersText depth rest

end

def text (j : Json) : String := j.textAt 0

end Json
end Formulary
