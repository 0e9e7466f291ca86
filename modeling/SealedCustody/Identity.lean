import SealedCustody.Digest.Sha256
import SealedCustody.Identity.Ed25519
import SealedCustody.PeerId
import SealedCustody.Protobuf
import SealedCustody.Text.Utf8

/-!
# Node identities

An identity is an Ed25519 key pair; its peer id is derived from the public half. It is kept as a
record of two tagged fields: the type of the key, and the secret followed by the public half. Writing
has one form. Reading takes the fields in any order, skips fields it does not know, keeps the last of
a repeated field, and then requires an Ed25519 key whose halves belong together.
-/

namespace SealedCustody

/-- A node's key pair. -/
structure Identity where
  secret : List UInt8
  publicKey : List UInt8
deriving DecidableEq, Repr, Inhabited

namespace Identity

/-- The identity of a secret of 32 octets. -/
def ofSecret (secret : List UInt8) : Identity := ⟨secret, Ed25519.publicKey secret⟩

/-- The identity of a seed: its SHA-256 digest is the secret. -/
def ofSeed (seed : String) : Identity := ofSecret (Sha256.digest (Utf8.octets seed))

/-- The peer id, fixed by the public key. -/
def peerId (i : Identity) : PeerId := PeerId.ofPublicKey i.publicKey

/-- An identity shows its peer id only. -/
def shown (i : Identity) : String := "PeerIdentity \x7b peer_id: " ++ i.peerId.shown ++ ", .. \x7d"

/-! ## The encoded form -/

/-- The type of an Ed25519 key. -/
def ed25519Type : Nat := 1

/-- The encoded form: the type in field one, 64 octets in field two. -/
def encode (i : Identity) : List UInt8 := [0x08, 0x01, 0x12, 0x40] ++ i.secret ++ i.publicKey

/-- The identity that octets hold. A type has 32 bits. -/
def decode? (bs : List UInt8) : Option Identity := do
  let fields ← Protobuf.fields? bs
  let keyType ← Protobuf.last? fields 1 (·.number?) 0
  let data ← Protobuf.last? fields 2 (·.octets?) []
  let i := ofSecret (data.take 32)
  if keyType % UInt32.size = ed25519Type ∧ data.length = 64 ∧ data.drop 32 = i.publicKey
  then some i
  else none

end Identity

end SealedCustody
