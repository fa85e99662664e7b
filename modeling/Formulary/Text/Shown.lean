import Formulary.Text.Blank
import Formulary.Text.GraphemeBase

/-!
# Texts shown in messages

A text in quotes, in which characters that leave no mark of their own on a line are written as
escapes.
-/

namespace Formulary

/-- Characters without a form of their own: those that are no base, and all white space but the
blank. -/
def isInvisible (c : Char) : Bool := !isGraphemeBase c || (c != ' ' && isBlank c)

/-- A character inside the quotes. -/
def shownChar (c : Char) : List Char :=
  match c with
  | '"' => ['\\', '"']
  | '\\' => ['\\', '\\']
  | '\t' => ['\\', 't']
  | '\n' => ['\\', 'n']
  | '\r' => ['\\', 'r']
  | '\x00' => ['\\', '0']
  | c =>
    if isInvisible c then
      ['\\', 'u', '\x7b'] ++ Nat.toDigits 16 c.toNat ++ ['\x7d']
    else [c]

/-- A text in quotes. -/
def shown (text : String) : String :=
  "\"" ++ String.ofList (text.toList.flatMap shownChar) ++ "\""

end Formulary
