/-!
# Bytes
-/

namespace WebApp

/-- The content of a message body, or of what a peer sends. -/
abbrev Bytes := List UInt8

namespace Bytes

/-- Lower-case hexadecimal digits, two for each byte. -/
def toHex (bytes : Bytes) : String :=
  String.ofList (bytes.flatMap fun b =>
    [Nat.digitChar (b.toNat / 16), Nat.digitChar (b.toNat % 16)])

/-- The value of a hexadecimal digit; what is no digit counts as zero. -/
def hexValue (c : Char) : Nat :=
  if c.isDigit then c.toNat - '0'.toNat
  else if 'a' ≤ c ∧ c ≤ 'f' then c.toNat - 'a'.toNat + 10
  else if 'A' ≤ c ∧ c ≤ 'F' then c.toNat - 'A'.toNat + 10
  else 0

/-- The bytes that pairs of hexadecimal digits write. -/
def ofHexChars : List Char → Bytes
  | a :: b :: rest => UInt8.ofNat (hexValue a * 16 + hexValue b) :: ofHexChars rest
  | _ => []

/-- The bytes that pairs of hexadecimal digits write. -/
def ofHex (s : String) : Bytes := ofHexChars s.toList

end Bytes

end WebApp
