/-!
# Base58

Octets as digits to the base fifty-eight, most significant first. A leading zero octet is a leading
`1`, one for each.
-/

namespace SealedCustody.Base58

/-- The digits in order of value: no zero, capital `O`, capital `I` or small `l`. -/
def alphabet : List Char := "123456789ABCDEFGHJKLMNPQRSTUVWXYZabcdefghijkmnopqrstuvwxyz".toList

/-- The digit of a number below fifty-eight. -/
def digit (n : Nat) : Char := alphabet.getD n '1'

/-- The value of a digit. -/
def value? (c : Char) : Option Nat := alphabet.idxOf? c

/-- The digits of a positive number, after the digits given. -/
def digitsOnto (n : Nat) (done : List Char) : List Char :=
  if n = 0 then done else digitsOnto (n / 58) (digit (n % 58) :: done)
termination_by n
decreasing_by omega

/-- The octets of a positive number, before the octets given. -/
def octetsOnto (n : Nat) (done : List UInt8) : List UInt8 :=
  if n = 0 then done else octetsOnto (n / 256) ((n % 256).toUInt8 :: done)
termination_by n
decreasing_by omega

/-- The number that octets spell, most significant first. -/
def number (bs : List UInt8) : Nat := bs.foldl (fun n b => n * 256 + b.toNat) 0

/-- The Base58 text of some octets. -/
def encode (bs : List UInt8) : String :=
  String.ofList ((bs.takeWhile (· == 0)).map (fun _ => '1') ++ digitsOnto (number bs) [])

/-- Reads a Base58 text. -/
def decode? (s : String) : Option (List UInt8) := do
  let values ← s.toList.mapM value?
  let n := values.foldl (fun n d => n * 58 + d) 0
  some ((values.takeWhile (· == 0)).map (fun _ => 0) ++ octetsOnto n [])

end SealedCustody.Base58
