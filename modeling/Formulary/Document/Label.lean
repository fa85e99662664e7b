import Formulary.Text.Scan

/-!
# Labels of unnamed nodes

Readers of documents number the nodes that have no label of their own, and keep written labels apart
from those numbers.
-/

namespace Formulary.Document

def labelStart : List Char := ['r', 'i', 'o', 'g']

/-- The label of an unnamed node: its number with at least eight digits. -/
def generatedLabel (number : Nat) : List Char :=
  let digits := Nat.toDigits 10 number
  labelStart ++ List.replicate (8 - digits.length) '0' ++ digits

/-- Whether a label is a generated one, or one that has been kept apart from it before. -/
def looksGenerated (label : List Char) : Bool :=
  match after? labelStart label with
  | some rest => (rest.take 8).length == 8 && (rest.take 8).all Char.isDigit &&
      (rest.drop 8).all (· == 'd')
  | none => false

/-- The label that stands for a written one where generated labels may occur. -/
def apartLabel (label : List Char) : List Char :=
  if looksGenerated label then label ++ ['d'] else label

end Formulary.Document
