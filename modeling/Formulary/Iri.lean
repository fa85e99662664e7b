import Formulary.Text.Scan

/-!
# IRIs

The five parts of an IRI, the characters that each of them admits, and the resolution of a
reference against a base.
-/

namespace Formulary

/-- Parts of an IRI or of a reference, without the marks between them. -/
structure Iri where
  scheme : Option (List Char) := none
  authority : Option (List Char) := none
  path : List Char := []
  query : Option (List Char) := none
  fragment : Option (List Char) := none
deriving DecidableEq, Repr

namespace Iri

/-! ## Splitting -/

/-- What stands before the first character of a kind, and the text from that character on. -/
def cut (stop : Char → Bool) (text : List Char) : List Char × List Char :=
  (text.takeWhile (!stop ·), text.dropWhile (!stop ·))

/-- Letters, digits and the signs that a scheme may hold. -/
def isSchemeChar (c : Char) : Bool := c.isAlphanum || c == '+' || c == '-' || c == '.'

/-- The scheme before a colon, if the text starts with one, and the text after it. -/
def splitScheme (text : List Char) : Option (List Char) × List Char :=
  match text, cut (!isSchemeChar ·) text with
  | c :: _, (scheme, ':' :: rest) => if c.isAlpha then (some scheme, rest) else (none, text)
  | _, _ => (none, text)

def splitFragment (text : List Char) : List Char × Option (List Char) :=
  match cut (· == '#') text with
  | (before, _ :: after) => (before, some after)
  | (before, []) => (before, none)

def splitQuery (text : List Char) : List Char × Option (List Char) :=
  match cut (· == '?') text with
  | (before, _ :: after) => (before, some after)
  | (before, []) => (before, none)

/-- The parts of a text. -/
def split (text : List Char) : Iri :=
  let (scheme, text) := splitScheme text
  let (text, fragment) := splitFragment text
  let (text, query) := splitQuery text
  match after? ['/', '/'] text with
  | some rest =>
    let (authority, path) := cut (· == '/') rest
    { scheme, authority := some authority, path, query, fragment }
  | none => { scheme, path := text, query, fragment }

/-- The text made of the parts. -/
def text (i : Iri) : List Char :=
  (i.scheme.elim [] (· ++ [':'])) ++ (i.authority.elim [] (['/', '/'] ++ ·)) ++ i.path ++
    (i.query.elim [] ('?' :: ·)) ++ (i.fragment.elim [] ('#' :: ·))

/-! ## Characters -/

/-- Characters beyond ASCII that may stand in every part. -/
def isWide (c : Char) : Bool :=
  let n := c.toNat
  (0xA0 ≤ n && n ≤ 0xD7FF) || (0xF900 ≤ n && n ≤ 0xFDCF) || (0xFDF0 ≤ n && n ≤ 0xFFEF) ||
    (0x10000 ≤ n && n ≤ 0xEFFFD && n % 0x10000 ≤ 0xFFFD && !(0xE0000 ≤ n && n ≤ 0xE0FFF))

/-- Characters of private use, which only a query admits. -/
def isPrivate (c : Char) : Bool :=
  let n := c.toNat
  (0xE000 ≤ n && n ≤ 0xF8FF) || (0xF0000 ≤ n && n ≤ 0xFFFFD) || (0x100000 ≤ n && n ≤ 0x10FFFD)

/-- Characters that stand for themselves in every part. -/
def isCommon (c : Char) : Bool :=
  c.isAlphanum || "!$&'()*+,-.;=_~".toList.contains c || isWide c

def isHex (c : Char) : Bool := c.isDigit || ('a' ≤ c && c ≤ 'f') || ('A' ≤ c && c ≤ 'F')

/-- Whether a part holds only admitted characters and percent signs that two hexadecimal digits
follow. -/
def isMadeOf (admitted : Char → Bool) : List Char → Bool
  | [] => true
  | '%' :: a :: b :: rest => isHex a && isHex b && isMadeOf admitted rest
  | c :: rest => admitted c && isMadeOf admitted rest

/-! ## Hosts -/

/-- Value of a run of decimal digits. -/
def decimal (digits : List Char) : Nat :=
  digits.foldl (fun n c => 10 * n + (c.toNat - '0'.toNat)) 0

/-- Four numbers up to 255 without leading zeros, between full stops. -/
def isAddress4 (text : List Char) : Bool :=
  let parts := pieces (· == '.') text
  parts.length == 4 && parts.all fun part =>
    part.all Char.isDigit && 1 ≤ part.length && part.length ≤ 3 && decimal part ≤ 255 &&
      (part.length == 1 || part.head? != some '0')

/-- The number of 16-bit groups that a text between colons stands for; a 32-bit address may be the
last of them. -/
def groups? (last : Bool) (text : List Char) : Option Nat :=
  if text.isEmpty then some 0
  else
    let parts := pieces (· == ':') text
    let isGroup := fun part : List Char => 1 ≤ part.length && part.length ≤ 4 && part.all isHex
    match parts.reverse with
    | final :: front =>
      if !front.all isGroup then none
      else if isGroup final then some parts.length
      else if last && isAddress4 final then some (parts.length + 1)
      else none
    | [] => none

/-- Eight groups, or fewer around one double colon. -/
def isAddress6 (text : List Char) : Bool :=
  match cutAt? [':', ':'] text with
  | none => groups? true text == some 8
  | some (before, after) =>
    match groups? false before, groups? true after with
    | some m, some n => m + n ≤ 7
    | _, _ => false

/-- An address of a later kind: a version in hexadecimal, a full stop, and characters. -/
def isLaterAddress : List Char → Bool
  | c :: rest =>
    (c == 'v' || c == 'V') &&
      match cut (· == '.') rest with
      | (version, _ :: tail) => !version.isEmpty && version.all isHex && !tail.isEmpty &&
          tail.all fun c => (isCommon c && !isWide c) || c == ':'
      | _ => false
  | [] => false

/-- A host, which a colon and digits may follow. -/
def isHost (text : List Char) : Bool :=
  let isNumber := fun digits : List Char => digits.all Char.isDigit
  match text with
  | '[' :: rest =>
    match cut (· == ']') rest with
    | (address, _ :: tail) =>
      (isAddress6 address || isLaterAddress address) &&
        match tail with
        | [] => true
        | ':' :: digits => isNumber digits
        | _ => false
    | _ => false
  | _ =>
    match cut (· == ':') text with
    | (host, []) => isMadeOf isCommon host
    | (host, _ :: digits) => isMadeOf isCommon host && isNumber digits

/-- A host, with an optional user before an at sign. -/
def isAuthority (text : List Char) : Bool :=
  match cut (fun c => c == '@' || c == '[') text with
  | (user, '@' :: host) => isMadeOf (fun c => isCommon c || c == ':') user && isHost host
  | _ => isHost text

/-- Whether every part holds only what it may. The first segment of a path that nothing precedes has
no colon, which would make a scheme of it. -/
def isValid (i : Iri) : Bool :=
  let inPath := fun c => isCommon c || c == ':' || c == '@' || c == '/'
  i.authority.all isAuthority && isMadeOf inPath i.path &&
    i.query.all (isMadeOf fun c => inPath c || c == '?' || isPrivate c) &&
    i.fragment.all (isMadeOf fun c => inPath c || c == '?') &&
    (i.scheme.isSome || i.authority.isSome || !(i.path.takeWhile (· != '/')).contains ':')

/-- Whether a text is an IRI with a scheme. -/
def isAbsolute (text : List Char) : Bool := (split text).scheme.isSome && (split text).isValid

/-! ## Resolution -/

/-- The path up to its last slash. -/
def folder (path : List Char) : List Char := (path.reverse.dropWhile (· != '/')).reverse

/-- The path that segments lead to from a folder: `.` stays and `..` goes back to the folder around,
which is never less than the root of an authority. -/
def walk (hasAuthority : Bool) (path : List Char) : List (List Char) → List Char
  | [] => path
  | segment :: rest =>
    if segment = ['.'] then walk hasAuthority path rest
    else if segment = ['.', '.'] then
      let around := folder path.dropLast
      walk hasAuthority (if hasAuthority && around.isEmpty then ['/'] else around) rest
    else walk hasAuthority (path ++ segment ++ if rest.isEmpty then [] else ['/']) rest

/-- The path of a reference that starts with neither a scheme nor an authority, where the base is in
force. Only the steps of the reference itself are taken. -/
def resolvePath (base : Iri) (path : List Char) : List Char :=
  let start := if base.authority.isSome && base.path.isEmpty then ['/'] else folder base.path
  match path with
  | '/' :: path => walk base.authority.isSome ['/'] (pieces (· == '/') path)
  | _ => walk base.authority.isSome start (pieces (· == '/') path)

/-- What a reference means where the base is in force. -/
def resolve (base ref : Iri) : Iri :=
  if ref.scheme.isSome then ref
  else if ref.authority.isSome then { ref with scheme := base.scheme }
  else if ref.path.isEmpty then
    { base with query := ref.query.or base.query, fragment := ref.fragment }
  else
    { base with path := base.resolvePath ref.path, query := ref.query, fragment := ref.fragment }

/-- Whether the text of the parts is split into the same parts again, as far as the path goes. -/
def isTold (i : Iri) : Bool := i.authority.isSome || (after? ['/', '/'] i.path).isNone

/-- The IRI that a text means: an absolute one without a base, any valid reference with one. -/
def read? (base : Option Iri) (text : List Char) : Option (List Char) :=
  match base with
  | none => if isAbsolute text then some text else none
  | some base =>
    let ref := split text
    let meant := base.resolve ref
    if ref.isValid && meant.isTold then some meant.text else none

end Iri
end Formulary
