import SealedCustody.Digest.Sha256
import SealedCustody.Envelope
import SealedCustody.Table
import SealedCustody.Wire.Message

/-!
# Custody of sealed records

A node keeps the sealed records it was handed under their user ids and sealed blocks under the hash of
their octets, and opens a record only to answer a query. A call that fails leaves what is kept as it
was.
-/

namespace SealedCustody

/-- The SHA-256 digest of some octets in hexadecimal. -/
def contentHash (bs : List UInt8) : String := Hex.encode (Sha256.digest bs)

/-- A sealed record and the key that opens it. -/
structure CustodyRecord where
  userId : String
  envelope : List UInt8
  key : EnvelopeKey
deriving DecidableEq

namespace CustodyRecord

/-- The record inside the envelope. -/
def «open» (r : CustodyRecord) : Except Error Record :=
  match Envelope.open? r.key r.envelope with
  | none => .error .authentication
  | some plaintext => Record.ofOctets plaintext

/-- Whether the record satisfies criteria. -/
def verdict (r : CustodyRecord) (c : Criteria) : Verdict :=
  match r.open with
  | .ok record => if c.evaluate record then .eligible else .ineligible
  | .error _ => .unverifiable

end CustodyRecord

/-- What a node has in custody. -/
structure Custody where
  users : Table String CustodyRecord
  blocks : Table String (List UInt8)
deriving Inhabited

/-- The text with ASCII capitals made small. -/
def asciiLower (s : String) : String := String.ofList (s.toList.map Char.toLower)

namespace Custody

/-- Nothing in custody. -/
def empty : Custody := ⟨∅, ∅⟩

/-- Custody shows how much there is. -/
def shown (c : Custody) : String :=
  "CustodyStore \x7b users: " ++ toString c.users.size ++ ", blocks: " ++ toString c.blocks.size
    ++ " \x7d"

/-- The record that a message hands over. -/
def recordOf (m : NewUser) : Except Error CustodyRecord :=
  if m.id = "" then .error (.serialization "empty user id")
  else match Base64.decodeTrimmed? m.envelope with
    | none => .error (.serialization "user envelope: not in canonical form")
    | some envelope =>
      match EnvelopeKey.ofBase64 m.key with
      | .error f => .error (.serialization f.message)
      | .ok key => .ok ⟨m.id, envelope, key⟩

/-- Takes a user record, in place of any held for the user before. -/
def putUser (c : Custody) (m : NewUser) : Except Error Unit × Custody :=
  match recordOf m with
  | .error e => (.error e, c)
  | .ok r => (.ok (), { c with users := c.users.insert m.id r })

/-- The record of a user. -/
def user? (c : Custody) (id : String) : Option CustodyRecord := c.users.get? id

/-- The octets that a block hands over, if its hash is theirs. -/
def octetsOf (b : DataBlock) : Except Error (List UInt8) :=
  match Base64.decodeTrimmed? b.cipher with
  | none => .error (.serialization "data block: not in canonical form")
  | some bs => if contentHash bs = asciiLower b.hash then .ok bs else .error .authentication

/-- Takes a block under its hash. -/
def putBlock (c : Custody) (b : DataBlock) : Except Error Unit × Custody :=
  match octetsOf b with
  | .error e => (.error e, c)
  | .ok bs => (.ok (), { c with blocks := c.blocks.insert (asciiLower b.hash) bs })

/-- The block under a hash, in capitals or not. -/
def block? (c : Custody) (hash : String) : Option (List UInt8) := c.blocks.get? (asciiLower hash)

/-- The verdict for a subject. -/
def verdict (c : Custody) (subject : String) (criteria : Criteria) : Verdict :=
  match c.user? subject with
  | none => .unknownSubject
  | some r => r.verdict criteria

end Custody

end SealedCustody
