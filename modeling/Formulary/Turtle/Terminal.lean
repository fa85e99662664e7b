import Formulary.Text.Blank
import Formulary.Text.CodePoint
import Formulary.Text.Name
import Formulary.Text.Scan
import Formulary.Vocabulary

/-!
# Terminals of Turtle

The names, labels, strings, references, tags and numbers that Turtle and N-Triples are made of. A
reader of a terminal takes the text from where the terminal starts, and gives what it stands for
together with the text after it; it refuses a text that starts with no such terminal.
-/

namespace Formulary.Terminal

/-! ## White space -/

/-- The text without white space and comments in front; the flag tells that a comment is open. -/
def skipFrom : Bool → List Char → List Char
  | _, [] => []
  | true, c :: rest => skipFrom (c != '\n' && c != '\r') rest
  | false, c :: rest =>
    if isSpace c then skipFrom false rest else if c = '#' then skipFrom true rest else c :: rest

/-- The text without white space and comments in front. A comment reaches to the end of its line. -/
def skip (text : List Char) : List Char := skipFrom false text

/-! ## Escapes -/

/-- The character that a letter after a backslash stands for. -/
def escaped? : Char → Option Char
  | 't' => some '\t'
  | 'b' => some '\x08'
  | 'n' => some '\n'
  | 'r' => some '\r'
  | 'f' => some '\x0c'
  | '"' => some '"'
  | '\'' => some '\''
  | '\\' => some '\\'
  | _ => none

/-- A reference or string with its code point escapes decoded; `simple` decodes the others. -/
def decode? (simple : Char → Option Char) : List Char → Option (List Char)
  | [] => some []
  | '\\' :: 'u' :: a :: b :: c :: d :: rest => do
    let char ← charOfHex? [a, b, c, d]
    (decode? simple rest).map (char :: ·)
  | '\\' :: 'U' :: a :: b :: c :: d :: e :: f :: g :: h :: rest => do
    let char ← charOfHex? [a, b, c, d, e, f, g, h]
    (decode? simple rest).map (char :: ·)
  | '\\' :: c :: rest => do
    let char ← simple c
    (decode? simple rest).map (char :: ·)
  | '\\' :: [] => none
  | c :: rest => (decode? simple rest).map (c :: ·)

/-! ## Strings and references -/

/-- A string body up to its closing quote on the same line, escapes left as they are, and the text
after the quote. -/
def shortBody? (quote : Char) : List Char → Option (List Char × List Char)
  | [] => none
  | '\\' :: c :: rest => (shortBody? quote rest).map fun (body, after) => ('\\' :: c :: body, after)
  | c :: rest =>
    if c = quote then some ([], rest)
    else if c = '\n' ∨ c = '\r' then none
    else (shortBody? quote rest).map fun (body, after) => (c :: body, after)

/-- A string body up to three closing quotes, escapes left as they are, and the text after them. -/
def longBody? (quote : Char) : List Char → Option (List Char × List Char)
  | [] => none
  | '\\' :: c :: rest => (longBody? quote rest).map fun (body, after) => ('\\' :: c :: body, after)
  | c :: rest =>
    match c == quote, after? [quote, quote] rest with
    | true, some after => some ([], after)
    | _, _ => (longBody? quote rest).map fun (body, after) => (c :: body, after)

/-- A string on one line, after its opening quote. -/
def shortString? (quote : Char) (text : List Char) : Option (List Char × List Char) := do
  let (body, rest) ← shortBody? quote text
  return (← decode? escaped? body, rest)

/-- A string after the first quote that opens it. -/
def string? (quote : Char) (text : List Char) : Option (List Char × List Char) :=
  match after? [quote, quote] text with
  | some text => do
    let (body, rest) ← longBody? quote text
    return (← decode? escaped? body, rest)
  | none => shortString? quote text

/-- A reference after its opening bracket. -/
def reference? (text : List Char) : Option (List Char × List Char) := do
  let (body, rest) ← cutAt? ['>'] text
  return (← decode? (fun _ => none) body, rest)

/-- The characters of a language tag, after the at sign; whether they make a tag is not decided
here. -/
def tag (text : List Char) : List Char × List Char :=
  let inTag := fun c : Char => c.isAlphanum || c == '-'
  (text.takeWhile inTag, text.dropWhile inTag)

/-! ## Numbers -/

def isExponentMark (c : Char) : Bool := c == 'e' || c == 'E'

/-- An optional sign, and the text after it. -/
def sign : List Char → List Char × List Char
  | '+' :: rest => (['+'], rest)
  | '-' :: rest => (['-'], rest)
  | text => ([], text)

/-- A full stop that a digit or an exponent follows, with the digits after it. -/
def fraction : List Char → List Char × List Char
  | '.' :: c :: rest =>
    if c.isDigit || isExponentMark c then
      ('.' :: (c :: rest).takeWhile Char.isDigit, (c :: rest).dropWhile Char.isDigit)
    else ([], '.' :: c :: rest)
  | text => ([], text)

/-- The digits of an exponent with their mark and sign, if there is a mark. -/
def exponent? : List Char → Option (List Char × List Char)
  | c :: rest =>
    if isExponentMark c then
      let (mark, rest) := sign rest
      let digits := rest.takeWhile Char.isDigit
      if digits.isEmpty then none else some (c :: mark ++ digits, rest.dropWhile Char.isDigit)
    else some ([], c :: rest)
  | [] => some ([], [])

/-- A number as it is written, with the datatype that its form gives it. -/
def number? (text : List Char) : Option ((List Char × String) × List Char) := do
  let (mark, text) := sign text
  let whole := text.takeWhile Char.isDigit
  let (point, text) := fraction (text.dropWhile Char.isDigit)
  if whole.isEmpty && point.length ≤ 1 then none
  else do
    let (exponent, text) ← exponent? text
    let datatype :=
      if !exponent.isEmpty then Xsd.double
      else if !point.isEmpty then Xsd.decimal
      else Xsd.integer
    return ((mark ++ whole ++ point ++ exponent, datatype), text)

/-! ## Names -/

/-- Characters after which a name goes on. Beyond ASCII all of them do; one that no name may hold is
then refused. -/
def continuesName (c : Char) : Bool := isNameRest c || c.toNat > 127

/-- The rest of a label, and the text after it. A full stop belongs to it only where a character of
the label follows at once. -/
def labelRest? : List Char → Option (List Char × List Char)
  | [] => some ([], [])
  | '.' :: c :: rest =>
    if continuesName c then
      (labelRest? (c :: rest)).map fun (label, after) => ('.' :: label, after)
    else some ([], '.' :: c :: rest)
  | c :: rest =>
    if isNameRest c then (labelRest? rest).map fun (label, after) => (c :: label, after)
    else if continuesName c then none
    else some ([], c :: rest)

/-- The label of a blank node, after the underscore and the colon. -/
def blankLabel? : List Char → Option (List Char × List Char)
  | c :: rest =>
    if isNameLetter c || c == '_' || c.isDigit then
      (labelRest? rest).map fun (label, after) => (c :: label, after)
    else none
  | [] => none

/-- The label of a namespace, which may be empty, up to its colon. -/
def namespaceLabel? : List Char → Option (List Char × List Char)
  | ':' :: rest => some ([], rest)
  | c :: rest =>
    if isNameLetter c then
      match labelRest? rest with
      | some (label, ':' :: after) => some (c :: label, after)
      | _ => none
    else none
  | [] => none

/-- Characters that a backslash may stand before in a local part. -/
def isLocalEscape (c : Char) : Bool := "_~.-!$&'()*+,;=/?#@%".toList.contains c

/-- Whether a local part goes on where full stops end. -/
def continuesLocal (text : List Char) : Bool :=
  match text.dropWhile (· == '.') with
  | c :: _ => continuesName c || c == ':' || c == '%' || c == '\\'
  | [] => false

/-- The rest of a local part, its escapes decoded, and the text after it. Full stops belong to it
only where more of it follows. -/
def localRest? : List Char → Option (List Char × List Char)
  | [] => some ([], [])
  | '%' :: a :: b :: rest =>
    if (hexValue? a).isSome && (hexValue? b).isSome then
      (localRest? rest).map fun (member, after) => ('%' :: a :: b :: member, after)
    else none
  | '\\' :: c :: rest =>
    if isLocalEscape c then (localRest? rest).map fun (member, after) => (c :: member, after)
    else none
  | c :: rest =>
    if isNameRest c || c == ':' || (c == '.' && continuesLocal rest) then
      (localRest? rest).map fun (member, after) => (c :: member, after)
    else if continuesName c || c == '%' || c == '\\' then none
    else some ([], c :: rest)

/-- The local part after a colon; it may be empty. Neither a hyphen nor a full stop starts it. -/
def localPart? : List Char → Option (List Char × List Char)
  | [] => some ([], [])
  | c :: rest =>
    if isNameLetter c || c == '_' || c == ':' || c.isDigit || c == '%' || c == '\\' then
      localRest? (c :: rest)
    else if c.toNat > 127 then none
    else some ([], c :: rest)

/-- A label and a local part around a colon. -/
def name? (text : List Char) : Option ((List Char × List Char) × List Char) := do
  let (label, rest) ← namespaceLabel? text
  let (member, rest) ← localPart? rest
  return ((label, member), rest)

/-- The text after a word that no character continues. -/
def word? (word text : List Char) (continues : Char → Bool) : Option (List Char) :=
  match after? word text with
  | some rest => if rest.head?.any continues then none else some rest
  | none => none

/-- The text after the brackets of a node without properties, between which only white space
stands. -/
def anon? : List Char → Option (List Char)
  | '[' :: rest => after? [']'] (rest.dropWhile isSpace)
  | _ => none

end Formulary.Terminal
