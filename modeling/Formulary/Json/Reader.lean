import Formulary.Json
import Formulary.Text.Blank
import Formulary.Text.Scan

/-!
# Reading JSON

The strict grammar: one value with nothing but white space around it.
-/

namespace Formulary.Json

/-! ## Strings -/

/-- The number in four hexadecimal digits, and what follows them. -/
def fourDigits? : List Char → Option (Nat × List Char)
  | a :: b :: c :: d :: rest => (hexNumber? [a, b, c, d]).map (·, rest)
  | _ => none

/-- The character that two escapes name together, where the number of the first is the first half of
a surrogate pair, and what follows the second. -/
def pair? (high : Nat) (text : List Char) : Option (Char × List Char) := do
  let rest ← after? ['\\', 'u'] text
  let (low, rest) ← fourDigits? rest
  if 0xD800 ≤ high ∧ high < 0xDC00 ∧ 0xDC00 ≤ low ∧ low < 0xE000 then
    (charOfCode? (0x10000 + (high - 0xD800) * 0x400 + (low - 0xDC00))).map (·, rest)
  else none

/-- What an escape stands for after its letter `u`: a character, or nothing where it is half of a
surrogate pair. -/
def wideEscape? (text : List Char) : Option (Option Char × List Char) := do
  let (code, rest) ← fourDigits? text
  match pair? code rest with
  | some (c, rest) => return (some c, rest)
  | none => return (charOfCode? code, rest)

/-- The character of a one-letter escape. -/
def shortEscape? : Char → Option Char
  | '"' => some '"'
  | '\\' => some '\\'
  | '/' => some '/'
  | 'b' => some '\x08'
  | 'f' => some '\x0c'
  | 'n' => some '\n'
  | 'r' => some '\r'
  | 't' => some '\t'
  | _ => none

/-- What the signs of a string stand for up to its closing quote, and what follows that; the fuel
bounds its length. -/
def stringRest? : Nat → List Char → Option (List (Option Char) × List Char)
  | 0, _ => none
  | _, [] => none
  | _, '"' :: rest => some ([], rest)
  | fuel + 1, '\\' :: 'u' :: rest => do
    let (c, rest) ← wideEscape? rest
    (stringRest? fuel rest).map fun (signs, rest) => (c :: signs, rest)
  | fuel + 1, '\\' :: letter :: rest => do
    let c ← shortEscape? letter
    (stringRest? fuel rest).map fun (signs, rest) => (some c :: signs, rest)
  | fuel + 1, c :: rest =>
    if c.toNat < 32 ∨ c = '\\' then none
    else (stringRest? fuel rest).map fun (signs, rest) => (some c :: signs, rest)

/-- The text of a string after its opening quote, if it is one, and what follows the string. -/
def quotedText? (text : List Char) : Option (Option String × List Char) := do
  let (signs, rest) ← stringRest? (text.length + 1) text
  return ((signs.mapM id).map String.ofList, rest)

/-! ## Numbers -/

/-- A run of digits that is not empty, and what follows it. -/
def digits? (text : List Char) : Option (List Char × List Char) :=
  let digits := text.takeWhile Char.isDigit
  if digits.isEmpty then none else some (digits, text.drop digits.length)

/-- The digits before the point: no zero leads other digits. -/
def whole? (text : List Char) : Option (List Char × List Char) := do
  let (digits, rest) ← digits? text
  if digits.length > 1 && digits.head? == some '0' then none else some (digits, rest)

/-- A point with digits after it, if there is a point. -/
def point? : List Char → Option (List Char × List Char)
  | '.' :: rest => (digits? rest).map fun (digits, rest) => ('.' :: digits, rest)
  | text => some ([], text)

/-- An exponent, if there is one. -/
def exponent? (text : List Char) : Option (List Char × List Char) :=
  match text with
  | mark :: sign :: rest =>
    if mark = 'e' ∨ mark = 'E' then
      if sign = '+' ∨ sign = '-' then
        (digits? rest).map fun (digits, rest) => (mark :: sign :: digits, rest)
      else (digits? (sign :: rest)).map fun (digits, rest) => (mark :: digits, rest)
    else some ([], text)
  | ['e'] | ['E'] => none
  | _ => some ([], text)

/-- A number as it is written. -/
def number? (text : List Char) : Option (Json × List Char) := do
  let (sign, rest) :=
    match text with
    | '-' :: rest => (['-'], rest)
    | _ => ([], text)
  let (whole, rest) ← whole? rest
  let (point, rest) ← point? rest
  let (exponent, rest) ← exponent? rest
  return (.number (String.ofList (sign ++ whole ++ point ++ exponent)), rest)

/-! ## Values -/

/-- The text without white space in front. -/
def skip (text : List Char) : List Char := text.dropWhile isSpace

/-- A fixed word. -/
def word? (word : String) (value : Json) (text : List Char) : Option (Json × List Char) :=
  (after? word.toList text).map (value, ·)

/-- The value that a text up to the given rest stands for, as it is written where it is none. -/
def legible (text rest : List Char) (value : Option Json) : Json :=
  value.getD (.illegible (String.ofList (text.take (text.length - rest.length))))

mutual

/-- A value, and what follows it. -/
def value? : Nat → List Char → Option (Json × List Char)
  | 0, _ => none
  | fuel + 1, text =>
    match skip text with
    | '"' :: rest => (quotedText? rest).map fun (value, after) =>
        (legible (skip text) after (value.map .string), after)
    | '[' :: rest =>
      match skip rest with
      | ']' :: rest => some (.array [], rest)
      | _ => (items? fuel rest).map fun (items, rest) => (.array items, rest)
    | '\x7b' :: rest =>
      match skip rest with
      | '\x7d' :: rest => some (.object [], rest)
      | _ => (members? fuel rest).map fun (members, after) =>
          (legible (skip text) after ((members.mapM id).map .object), after)
    | 'n' :: rest => word? "ull" .null rest
    | 't' :: rest => word? "rue" (.bool true) rest
    | 'f' :: rest => word? "alse" (.bool false) rest
    | text => number? text

/-- Items up to the closing bracket. -/
def items? : Nat → List Char → Option (List Json × List Char)
  | 0, _ => none
  | fuel + 1, text => do
    let (item, rest) ← value? fuel text
    match skip rest with
    | ',' :: rest => (items? fuel rest).map fun (items, rest) => (item :: items, rest)
    | ']' :: rest => some ([item], rest)
    | _ => none

/-- Members up to the closing brace, each where its name is a text. -/
def members? : Nat → List Char → Option (List (Option (String × Json)) × List Char)
  | 0, _ => none
  | fuel + 1, text => do
    let rest ← after? ['"'] (skip text)
    let (name, rest) ← quotedText? rest
    let rest ← after? [':'] (skip rest)
    let (value, rest) ← value? fuel rest
    let member := name.map (·, value)
    match skip rest with
    | ',' :: rest => (members? fuel rest).map fun (members, rest) => (member :: members, rest)
    | '\x7d' :: rest => some ([member], rest)
    | _ => none

end

/-- The value that a text is. Every value takes at least one character, and leads to the next in at
most two steps. -/
def read? (text : String) : Option Json := do
  let (value, rest) ← value? (2 * text.toList.length + 1) text.toList
  if (skip rest).isEmpty then some value else none

end Formulary.Json
