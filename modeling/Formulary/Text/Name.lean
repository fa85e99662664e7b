/-!
# Name characters

The character classes of names in Turtle and in XML. Both start names with the same letters; they
differ in the colon, the underscore and the full stop.
-/

namespace Formulary

/-- Whether a character lies in one of the ranges, whose ends belong to them. -/
def inRanges (ranges : List (Nat × Nat)) (c : Char) : Bool :=
  ranges.any fun range => range.1 ≤ c.toNat && c.toNat ≤ range.2

/-- Letters that may start a name. -/
def isNameLetter : Char → Bool := inRanges [(0x41, 0x5A), (0x61, 0x7A), (0xC0, 0xD6), (0xD8, 0xF6),
  (0xF8, 0x2FF), (0x370, 0x37D), (0x37F, 0x1FFF), (0x200C, 0x200D), (0x2070, 0x218F),
  (0x2C00, 0x2FEF), (0x3001, 0xD7FF), (0xF900, 0xFDCF), (0xFDF0, 0xFFFD), (0x10000, 0xEFFFF)]

/-- Characters that may follow in a name: letters, the underscore, the hyphen, digits, the middle
dot, and combining marks. -/
def isNameRest (c : Char) : Bool :=
  isNameLetter c || c == '_' || c == '-' || c.isDigit ||
    inRanges [(0xB7, 0xB7), (0x300, 0x36F), (0x203F, 0x2040)] c

/-- A name of XML without a colon. -/
def isUncolonedName : List Char → Bool
  | [] => false
  | c :: rest => (isNameLetter c || c == '_') && rest.all fun c => isNameRest c || c == '.'

end Formulary
