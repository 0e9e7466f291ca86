/-!
# Hexadecimal octets

Each octet is two lower-case hexadecimal digits; reading takes digits of either case.
-/

namespace SealedCustody.Hex

/-- The lower-case digit of a number below sixteen. -/
def digit (n : Nat) : Char := Nat.digitChar n

/-- The value of a hexadecimal digit of either case. -/
def value? (c : Char) : Option Nat :=
  if '0' ≤ c ∧ c ≤ '9' then some (c.toNat - '0'.toNat)
  else if 'a' ≤ c ∧ c ≤ 'f' then some (c.toNat - 'a'.toNat + 10)
  else if 'A' ≤ c ∧ c ≤ 'F' then some (c.toNat - 'A'.toNat + 10)
  else none

/-- The two digits of an octet. -/
def octet (b : UInt8) : List Char := [digit (b.toNat / 16), digit (b.toNat % 16)]

/-- The digits of some octets. -/
def encode (bs : List UInt8) : String := String.ofList (bs.flatMap octet)

/-- Reads pairs of digits. -/
def decodeList? : List Char → Option (List UInt8)
  | [] => some []
  | [_] => none
  | hi :: lo :: rest => do
    let b := (← value? hi) * 16 + (← value? lo)
    return b.toUInt8 :: (← decodeList? rest)

/-- Reads a text of digit pairs. -/
def decode? (s : String) : Option (List UInt8) := decodeList? s.toList

end SealedCustody.Hex
