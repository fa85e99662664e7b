import Formulary.Text.Blank
import Formulary.Text.CodePoint
import Formulary.Text.Scan

/-!
# References in markup

Text and attribute values write some characters as references between an ampersand and a semicolon:
by number, by one of five fixed names, or by a name that the document declares.
-/

namespace Formulary.Xml

/-- Declared names and the texts that they stand for, the latest first. -/
abbrev Entities := List (List Char × List Char)

/-- The character of a number that is not zero. -/
def numbered? (code : Option Nat) (digits : List Char) : Option (List Char) :=
  if digits.isEmpty || code = some 0 then none else (code.bind charOfCode?).map ([·])

/-- What a reference stands for, by what it has between its ampersand and its semicolon. No
declaration changes the fixed names. -/
def referent? (entities : Entities) : List Char → Option (List Char)
  | ['l', 't'] => some ['<']
  | ['g', 't'] => some ['>']
  | ['a', 'm', 'p'] => some ['&']
  | ['a', 'p', 'o', 's'] => some ['\'']
  | ['q', 'u', 'o', 't'] => some ['"']
  | '#' :: 'x' :: digits => numbered? (hexNumber? digits) digits
  | '#' :: digits => numbered? (decimalNumber? digits) digits
  | name => if name.contains '&' then none else entities.lookup name

/-- Text with its references resolved; the fuel bounds its length. -/
def decodeFrom? (entities : Entities) : Nat → List Char → Option (List Char)
  | _, [] => some []
  | 0, _ => none
  | fuel + 1, '&' :: rest => do
    let (name, rest) ← cutAt? [';'] rest
    let text ← referent? entities name
    (decodeFrom? entities fuel rest).map (text ++ ·)
  | fuel + 1, c :: rest => (decodeFrom? entities fuel rest).map (c :: ·)

def decode? (entities : Entities) (raw : List Char) : Option (List Char) :=
  decodeFrom? entities raw.length raw

/-- A character as it is written in text. -/
def escape : Char → List Char
  | '<' => "&lt;".toList
  | '>' => "&gt;".toList
  | '&' => "&amp;".toList
  | '\'' => "&apos;".toList
  | '"' => "&quot;".toList
  | c => [c]

/-! ## Declarations -/

/-- White space between the parts of a declaration. -/
def isGap (c : Char) : Bool := isSpace c || c == '\x0c'

/-- The name that a declaration gives after its keyword, and the text that the name stands for, as
it is written. A percent sign before the name changes nothing. -/
def declared? (text : List Char) : Option (List Char × List Char) := do
  let text := text.dropWhile isBlank
  let text := ((after? ['%'] text).getD text).dropWhile isBlank
  let name := text.takeWhile (!isGap ·)
  if name.length = text.length then none
  let rest ← after? ['"'] ((text.drop name.length).dropWhile isBlank)
  let (value, rest) ← cutAt? ['"'] rest
  let _ ← after? ['>'] (rest.dropWhile isBlank)
  return (name, value)

/-- The declarations in the content of a document type, each after an angle bracket. -/
def declarations? (content : List Char) : Option (List (List Char × List Char)) :=
  ((pieces (· == '<') content).drop 1).filterMap (after? "!ENTITY".toList) |>.mapM declared?

/-- The entities after one more declaration, in whose text earlier ones may occur. -/
def declare? (entities : Entities) (declared : List Char × List Char) : Option Entities :=
  (decode? entities declared.2).map fun text => (declared.1, text) :: entities

end Formulary.Xml
