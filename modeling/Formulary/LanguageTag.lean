import Formulary.Text.Scan

/-!
# Language tags

Well-formed language tags of BCP 47: primary language, extended languages, script, region,
variants, extensions and private use, or one of the tags registered as a whole.
-/

namespace Formulary.LanguageTag

/-- Tags registered before the present grammar, in lower case. -/
def registered : List String := ["art-lojban", "cel-gaulish", "en-gb-oed", "i-ami", "i-bnn",
  "i-default", "i-enochian", "i-hak", "i-klingon", "i-lux", "i-mingo", "i-navajo", "i-pwn", "i-tao",
  "i-tay", "i-tsu", "no-bok", "no-nyn", "sgn-be-fr", "sgn-be-nl", "sgn-ch-de", "zh-guoyu",
  "zh-hakka", "zh-min", "zh-min-nan", "zh-xiang"]

/-- What may come next in a tag. -/
inductive Place where
  /-- Up to three extended languages may follow; the number counts those seen. -/
  | language (extended : Nat)
  | script
  | region
  | variant
  /-- Inside an extension; the flag tells that it still lacks its first subtag. -/
  | extension (missing : Bool)
  | privateUse (missing : Bool)

/-- The place after one more subtag, if it may stand there. -/
def advance? (place : Place) (subtag : List Char) : Option Place :=
  let size := subtag.length
  let letters := subtag.all Char.isAlpha
  let digits := subtag.all Char.isDigit
  let plain := subtag.all Char.isAlphanum
  let variant? :=
    if plain && ((size ≥ 5 && (subtag.take 1).all Char.isAlpha) ||
        (size ≥ 4 && (subtag.take 1).all Char.isDigit)) then some Place.variant else none
  let region? :=
    if (size = 2 && letters) || (size = 3 && digits) then some Place.variant else variant?
  let script? := if size = 4 && letters then some Place.region else region?
  if size = 0 || size > 8 then none
  else match place with
    | .privateUse _ => if plain then some (.privateUse false) else none
    | .extension true =>
      if size = 1 then none else if plain then some (.extension false) else none
    | _ =>
      if subtag = ['x'] then some (.privateUse true)
      else if size = 1 && plain then some (.extension true)
      else match place with
        | .extension _ => if plain then some (.extension false) else none
        | .language extended =>
          if size = 3 && letters then
            if extended < 3 then some (.language (extended + 1)) else none
          else script?
        | .script => script?
        | .region => region?
        | _ => variant?

/-- Whether a tag may end at a place. -/
def Place.isFinal : Place → Bool
  | .extension missing => !missing
  | .privateUse missing => !missing
  | _ => true

/-- The place after the primary language, which alone may be followed by extended languages if it
is short. -/
def primary? (subtag : List Char) : Option Place :=
  if 2 ≤ subtag.length && subtag.length ≤ 8 && subtag.all Char.isAlpha then
    some (if subtag.length < 4 then .language 0 else .script)
  else none

/-- Well-formedness of a tag in lower case. -/
def isWellFormed (tag : List Char) : Bool :=
  registered.contains (String.ofList tag) ||
    match pieces (· == '-') tag with
    | ['x'] :: rest@(_ :: _) => rest.all fun subtag =>
        1 ≤ subtag.length && subtag.length ≤ 8 && subtag.all Char.isAlphanum
    | first :: rest =>
      match primary? first with
      | some place => ((rest.foldlM advance? place).map Place.isFinal).getD false
      | none => false
    | [] => false

end Formulary.LanguageTag
