import SealedCustody.Text.Blank

/-!
# Base64

The standard alphabet with padding. Reading takes exactly what writing produces: groups of four, the
last padded to four with `=`, the bits that padding leaves over all zero. `decodeTrimmed?` first drops
blanks at both ends.
-/

namespace SealedCustody.Base64

/-- The digit of a number below sixty-four. -/
def digit (n : Nat) : Char :=
  if n < 26 then Char.ofNat (65 + n)
  else if n < 52 then Char.ofNat (71 + n)
  else if n < 62 then Char.ofNat (n - 4)
  else if n = 62 then '+' else '/'

/-- The value of a digit. -/
def value? (c : Char) : Option Nat :=
  if 'A' ≤ c ∧ c ≤ 'Z' then some (c.toNat - 65)
  else if 'a' ≤ c ∧ c ≤ 'z' then some (c.toNat - 71)
  else if '0' ≤ c ∧ c ≤ '9' then some (c.toNat + 4)
  else if c = '+' then some 62
  else if c = '/' then some 63
  else none

/-- The digits of some octets, three octets to a group of four digits. -/
def encodeList : List UInt8 → List Char
  | [] => []
  | [a] =>
    let n := a.toNat * 16
    [digit (n / 64), digit (n % 64), '=', '=']
  | [a, b] =>
    let n := (a.toNat * 256 + b.toNat) * 4
    [digit (n / 4096), digit (n / 64 % 64), digit (n % 64), '=']
  | a :: b :: c :: rest =>
    let n := (a.toNat * 256 + b.toNat) * 256 + c.toNat
    digit (n / 262144) :: digit (n / 4096 % 64) :: digit (n / 64 % 64) :: digit (n % 64)
      :: encodeList rest

/-- The Base64 text of some octets. -/
def encode (bs : List UInt8) : String := String.ofList (encodeList bs)

/-- The octets of the last group. -/
def lastGroup? (a b c d : Char) : Option (List UInt8) := do
  let x ← value? a
  let y ← value? b
  if d = '=' then
    if c = '=' then
      if y % 16 = 0 then some [((x * 64 + y) / 16).toUInt8] else none
    else
      let n := (x * 64 + y) * 64 + (← value? c)
      if n % 4 = 0 then some [(n / 1024).toUInt8, (n / 4 % 256).toUInt8] else none
  else
    let n := ((x * 64 + y) * 64 + (← value? c)) * 64 + (← value? d)
    some [(n / 65536).toUInt8, (n / 256 % 256).toUInt8, (n % 256).toUInt8]

/-- Reads groups of four digits after the octets read so far, last first. -/
def decodeOnto (done : List UInt8) : List Char → Option (List UInt8)
  | [] => some done.reverse
  | [a, b, c, d] => do
    return done.reverse ++ (← lastGroup? a b c d)
  | a :: b :: c :: d :: rest => do
    let n := (((← value? a) * 64 + (← value? b)) * 64 + (← value? c)) * 64 + (← value? d)
    decodeOnto ((n % 256).toUInt8 :: (n / 256 % 256).toUInt8 :: (n / 65536).toUInt8 :: done) rest
  | _ => none

/-- Reads a Base64 text. -/
def decode? (s : String) : Option (List UInt8) := decodeOnto [] s.toList

/-- Reads a Base64 text with blanks at its ends. -/
def decodeTrimmed? (s : String) : Option (List UInt8) := decodeOnto [] (Text.trimmed s.toList)

end SealedCustody.Base64
