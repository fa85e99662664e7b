/-!
# Digests

The 64-bit digest FNV-1a of a text, over its UTF-8 bytes.
-/

namespace Formulary.Digest

/-- Takes one more byte into a digest. -/
def step (hash : UInt64) (byte : UInt8) : UInt64 := (hash ^^^ byte.toUInt64) * 0x100000001b3

/-- The digest of a text. -/
def ofText (text : String) : UInt64 :=
  (text.toList.flatMap String.utf8EncodeChar).foldl step 0xcbf29ce484222325

/-- A digest in sixteen hexadecimal digits. -/
def text (digest : UInt64) : String :=
  let digits := Nat.toDigits 16 digest.toNat
  String.ofList (List.replicate (16 - digits.length) '0' ++ digits)

end Formulary.Digest
