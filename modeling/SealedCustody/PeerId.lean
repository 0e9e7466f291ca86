import SealedCustody.Number.Base128
import SealedCustody.Text.Base58

/-!
# Peer ids

A peer id is a tagged digest: a code, a length and so many octets, the first two as numbers in base 128
without needless zeros. The code is that of SHA-256 or, for at most 42 octets, that of the
identity, which holds an encoded public key as it is. Peer ids are ordered by their octets and written
in Base58.
-/

namespace SealedCustody

/-- The name of a peer. -/
structure PeerId where
  octets : List UInt8
deriving DecidableEq, Repr, Inhabited

namespace PeerId

/-- Order by octets. -/
def order (a b : PeerId) : Ordering :=
  match a.octets, b.octets with
  | as, bs => if as < bs then .lt else if bs < as then .gt else .eq

/-- Whether one peer id comes before another. -/
def before (a b : PeerId) : Bool := a.octets < b.octets

/-- The text of a peer id. -/
def text (p : PeerId) : String := Base58.encode p.octets

/-- The code of the identity. -/
def identityCode : Nat := 0x00

/-- The code of SHA-256. -/
def sha256Code : Nat := 0x12

/-- The peer id that octets hold. It is kept with its code and length in one octet each, however they
were written. -/
def ofOctets? (bs : List UInt8) : Option PeerId := do
  let (code, rest) ← Base128.shortest? bs
  let (size, digest) ← Base128.shortest? rest
  if digest.length = size ∧ size ≤ 64
      ∧ (code = sha256Code ∨ (code = identityCode ∧ size ≤ 42)) then
    some ⟨code.toUInt8 :: size.toUInt8 :: digest⟩
  else none

/-- The peer id that a text gives. -/
def ofText? (s : String) : Option PeerId := (Base58.decode? s).bind ofOctets?

/-- The peer id of an Ed25519 public key: its encoding under the identity code. -/
def ofPublicKey (key : List UInt8) : PeerId := ⟨[0x00, 0x24, 0x08, 0x01, 0x12, 0x20] ++ key⟩

/-- How a peer id is shown inside another value. -/
def shown (p : PeerId) : String := "PeerId(\"" ++ p.text ++ "\")"

end PeerId

end SealedCustody
