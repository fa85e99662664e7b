import Formulary.Xml.Reference

/-!
# Markup

An XML text as the list of what happens in it: elements that start and end, the text between them,
and the declarations of its document type. Comments, processing instructions and text in which
nothing stands for something else are left out. References to characters are kept as they are
written; `Xml.decode?` resolves them.
-/

namespace Formulary.Xml

/-- Names and values as they are written. -/
abbrev Attributes := List (List Char × List Char)

inductive Event where
  | start (name : List Char) (attributes : Attributes)
  | finish (name : List Char)
  | text (raw : List Char)
  /-- Names with the texts that they stand for, as written. -/
  | declare (entities : List (List Char × List Char))
deriving DecidableEq, Repr

/-! ## Tags -/

/-- The inside of a tag up to the bracket that closes it, and the text after that. A bracket inside
quotes closes nothing. -/
def tagBody? : Option Char → List Char → Option (List Char × List Char)
  | _, [] => none
  | none, '>' :: rest => some ([], rest)
  | quote, c :: rest =>
    let quote :=
      match quote with
      | some q => if c = q then none else some q
      | none => if c = '"' ∨ c = '\'' then some c else none
    (tagBody? quote rest).map fun (body, rest) => (c :: body, rest)

/-- Attributes with quoted values; the fuel bounds their number. -/
def attributesFrom? : Nat → List Char → Option Attributes
  | fuel, text =>
    match fuel, text.dropWhile isSpace with
    | _, [] => some []
    | 0, _ => none
    | fuel + 1, first :: text => do
      let tail := text.takeWhile fun c => !isSpace c && c != '='
      let rest ← after? ['='] ((text.drop tail.length).dropWhile isSpace)
      match rest.dropWhile isSpace with
      | quote :: rest =>
        if quote = '"' ∨ quote = '\'' then do
          let (value, rest) ← cutAt? [quote] rest
          (attributesFrom? fuel rest).map ((first :: tail, value) :: ·)
        else none
      | [] => none

/-- The attributes of a tag. No two of them may have the same name. -/
def attributes? (text : List Char) : Option Attributes := do
  let attributes ← attributesFrom? text.length text
  if (attributes.map Prod.fst).eraseDups.length = attributes.length then some attributes else none

/-- What the inside of a tag makes happen. A slash at its end closes the element at once. -/
def tagEvents? (body : List Char) : Option (List Event) := do
  let empty := body.getLast? == some '/'
  let body := if empty then body.dropLast else body
  let name := body.takeWhile (!isSpace ·)
  let attributes ← attributes? (body.drop name.length)
  return if empty then [.start name attributes, .finish name] else [.start name attributes]

/-- The name in a tag that closes an element. Spaces after it do not belong to it. -/
def closedName (body : List Char) : List Char :=
  let name := (body.reverse.dropWhile isSpace).reverse
  if name.isEmpty then body else name

/-! ## Other markup -/

/-- The content of a document type up to the bracket that closes it, between balanced angle brackets,
and the text after that. -/
def doctypeBody? : Nat → List Char → Option (List Char × List Char)
  | _, [] => none
  | 0, '>' :: rest => some ([], rest)
  | depth, c :: rest =>
    let depth := if c = '<' then depth + 1 else if c = '>' then depth - 1 else depth
    (doctypeBody? depth rest).map fun (body, rest) => (c :: body, rest)

/-- What a document type makes happen, after its keyword. -/
def doctype? (text : List Char) : Option (List Event × List Char) := do
  let (body, rest) ← doctypeBody? 0 text
  if body.all isSpace then none
  return ([.declare (← declarations? body)], rest)

/-- The text after a processing instruction, which ends at the first question mark before a bracket,
but has a character after its own question mark. -/
def afterInstruction? (text : List Char) : Option (List Char) :=
  match cutAt? "?>".toList text with
  | some (_ :: _, rest) => some rest
  | _ => none

/-- What the markup after an angle bracket makes happen, and the text after it. -/
def markup? (text : List Char) : Option (List Event × List Char) :=
  match text with
  | '?' :: _ => (afterInstruction? text).map ([], ·)
  | '!' :: _ =>
    match after? "!--".toList text, after? "![CDATA[".toList text with
    | some rest, _ => (cutAt? "-->".toList rest).map fun (_, rest) => ([], rest)
    | none, some rest => (cutAt? "]]>".toList rest).map fun (_, rest) => ([], rest)
    | none, none =>
      if (text.take 8).map Char.toUpper = "!DOCTYPE".toList then doctype? (text.drop 8) else none
  | '/' :: rest => do
    let (body, rest) ← cutAt? ['>'] rest
    return ([.finish (closedName body)], rest)
  | _ => do
    let (body, rest) ← tagBody? none text
    let events ← tagEvents? body
    return (events, rest)

/-- The events of a text; the fuel bounds the number of its markups and texts. -/
def eventsFrom? : Nat → List Char → Option (List Event)
  | _, [] => some []
  | 0, _ => none
  | fuel + 1, '<' :: rest => do
    let (events, rest) ← markup? rest
    (eventsFrom? fuel rest).map (events ++ ·)
  | fuel + 1, text =>
    (eventsFrom? fuel (text.dropWhile (· != '<'))).map (.text (text.takeWhile (· != '<')) :: ·)

/-- The events of a text, which may start with a byte order mark. Each markup or text takes at least
one character. -/
def events? (text : List Char) : Option (List Event) :=
  let text := (after? ['\ufeff'] text).getD text
  eventsFrom? text.length text

end Formulary.Xml
