/-!
# Code points in digits

Characters that a text names by the digits of their code point.
-/

namespace Formulary

/-- Value of a hexadecimal digit. -/
def hexValue? (c : Char) : Option Nat :=
  if c.isDigit then some (c.toNat - '0'.toNat)
  else if 'a' ≤ c && c ≤ 'f' then some (c.toNat - 'a'.toNat + 10)
  else if 'A' ≤ c && c ≤ 'F' then some (c.toNat - 'A'.toNat + 10)
  else none

/-- Value of hexadecimal digits. -/
def hexNumber? (digits : List Char) : Option Nat :=
  digits.foldlM (fun n c => (hexValue? c).map (16 * n + ·)) 0

/-- Value of decimal digits. -/
def decimalNumber? (digits : List Char) : Option Nat :=
  digits.foldlM (fun n c => if c.isDigit then some (10 * n + (c.toNat - '0'.toNat)) else none) 0

/-- The character of a code point. Surrogates have none. -/
def charOfCode? (code : Nat) : Option Char :=
  if h : code.isValidChar then some ⟨code.toUInt32, by
    have small : code < UInt32.size := by
      rcases h with h | ⟨_, h⟩ <;> simp only [UInt32.size] <;> omega
    simpa [UInt32.isValidChar, UInt32.toNat_ofNat_of_lt' small] using h⟩ else none

/-- The character of a code point in hexadecimal. -/
def charOfHex? (digits : List Char) : Option Char := (hexNumber? digits).bind charOfCode?

end Formulary
