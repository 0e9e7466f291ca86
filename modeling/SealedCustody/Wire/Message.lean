import SealedCustody.Account
import SealedCustody.Request
import SealedCustody.Wire.ProtocolId

/-!
# Wire messages

The payloads of the protocols. Each is a JSON object whose fields are all required and which may hold
no others.
-/

namespace SealedCustody

open Json

/-- A text to print. -/
structure PrintMessage where
  message : String
deriving DecidableEq, Repr, Inhabited

/-- A sealed user record and its key, both in Base64. -/
structure NewUser where
  id : String
  envelope : String
  key : String
deriving DecidableEq, Repr, Inhabited

/-- The user id or block hash that was accepted. -/
structure Receipt where
  id : String
deriving DecidableEq, Repr, Inhabited

/-- A plaintext to seal, in Base64. -/
structure UploadRequest where
  data : String
deriving DecidableEq, Repr, Inhabited

/-- The hash of an envelope and the key that it was sealed under, in Base64. -/
structure UploadReceipt where
  hash : String
  key : String
deriving DecidableEq, Repr, Inhabited

/-- An envelope in Base64 under the hash of its octets. -/
structure DataBlock where
  hash : String
  cipher : String
deriving DecidableEq, Repr, Inhabited

/-- A query whether a subject's record satisfies criteria. -/
structure VerifyRequest where
  requestId : String
  subjectId : String
  criteria : Criteria
deriving Inhabited

/-- The answer to a query. -/
inductive Verdict where
  | eligible
  | ineligible
  | unknownSubject
  | unverifiable
deriving DecidableEq, Repr, Inhabited

/-- The answer to a query, with the id of the request that it belongs to. -/
structure VerifyResponse where
  requestId : String
  verdict : Verdict
deriving DecidableEq, Repr, Inhabited

namespace Verdict

/-- The name of a verdict on the wire. -/
def name : Verdict → String
  | eligible => "Eligible"
  | ineligible => "Ineligible"
  | unknownSubject => "UnknownSubject"
  | unverifiable => "Unverifiable"

/-- A verdict in words. -/
def shown : Verdict → String
  | eligible => "eligible"
  | ineligible => "ineligible"
  | unknownSubject => "unknown subject"
  | unverifiable => "unverifiable"

/-- Whether the verdict is a yes or a no. -/
def isConclusive : Verdict → Bool
  | eligible | ineligible => true
  | unknownSubject | unverifiable => false

/-- A verdict is written as its name. -/
def format : Format Verdict :=
  .choice ([eligible, ineligible, unknownSubject, unverifiable].map fun v => (v.name, v)) name

end Verdict

/-- The fields of a print message. -/
def PrintMessage.format : Format PrintMessage where
  tree m := objectOf [("message", some (Format.text.tree m.message))]
  read d t := do
    let (fields, d) ← t.fields? ["message"] .refused d
    some ⟨← fields.required "message" .text d⟩

/-- The fields of a new user. -/
def NewUser.format : Format NewUser where
  tree m := objectOf [("id", some (Format.text.tree m.id)),
    ("u", some (Format.text.tree m.envelope)), ("k", some (Format.text.tree m.key))]
  read d t := do
    let (fields, d) ← t.fields? ["id", "u", "k"] .refused d
    some ⟨← fields.required "id" .text d, ← fields.required "u" .text d,
      ← fields.required "k" .text d⟩

/-- The fields of a receipt. -/
def Receipt.format : Format Receipt where
  tree m := objectOf [("id", some (Format.text.tree m.id))]
  read d t := do
    let (fields, d) ← t.fields? ["id"] .refused d
    some ⟨← fields.required "id" .text d⟩

/-- The fields of an upload. -/
def UploadRequest.format : Format UploadRequest where
  tree m := objectOf [("data", some (Format.text.tree m.data))]
  read d t := do
    let (fields, d) ← t.fields? ["data"] .refused d
    some ⟨← fields.required "data" .text d⟩

/-- The fields of the receipt of an upload. -/
def UploadReceipt.format : Format UploadReceipt where
  tree m := objectOf [("hash", some (Format.text.tree m.hash)),
    ("key", some (Format.text.tree m.key))]
  read d t := do
    let (fields, d) ← t.fields? ["hash", "key"] .refused d
    some ⟨← fields.required "hash" .text d, ← fields.required "key" .text d⟩

/-- The fields of a block. -/
def DataBlock.format : Format DataBlock where
  tree m := objectOf [("hash", some (Format.text.tree m.hash)),
    ("cipher", some (Format.text.tree m.cipher))]
  read d t := do
    let (fields, d) ← t.fields? ["hash", "cipher"] .refused d
    some ⟨← fields.required "hash" .text d, ← fields.required "cipher" .text d⟩

/-- The fields of a query. -/
def VerifyRequest.format : Format VerifyRequest where
  tree m := objectOf [("request_id", some (Format.text.tree m.requestId)),
    ("subject_id", some (Format.text.tree m.subjectId)),
    ("criteria", some (Criteria.format.tree m.criteria))]
  read d t := do
    let (fields, d) ← t.fields? ["request_id", "subject_id", "criteria"] .refused d
    some ⟨← fields.required "request_id" .text d, ← fields.required "subject_id" .text d,
      ← fields.required "criteria" Criteria.format d⟩

/-- The fields of an answer. -/
def VerifyResponse.format : Format VerifyResponse where
  tree m := objectOf [("request_id", some (Format.text.tree m.requestId)),
    ("verdict", some (Verdict.format.tree m.verdict))]
  read d t := do
    let (fields, d) ← t.fields? ["request_id", "verdict"] .refused d
    some ⟨← fields.required "request_id" .text d, ← fields.required "verdict" Verdict.format d⟩

/-- Reads a payload received on a protocol. -/
def ProtocolId.decode {α : Type} (p : ProtocolId) (f : Format α) (bs : List UInt8) :
    Except Error α :=
  match f.ofOctets? bs with
  | some a => .ok a
  | none => .error (.protocol p.text (.malformed "not a JSON text of the expected form"))

end SealedCustody
