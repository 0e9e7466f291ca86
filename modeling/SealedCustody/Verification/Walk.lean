import SealedCustody.Address
import SealedCustody.Envelope
import SealedCustody.Request.Lifecycle

/-!
# Asking one peer after the other

A verification round asks the candidates in order until one gives a verdict on the subject; if none
does, a peer that does not know the subject is better than one that failed. An enrolment offers the
sealed record in order until a peer takes it. How a peer is asked is left open: each walk works for any
way to ask in sequence.
-/

namespace SealedCustody

/-- There is nobody to ask. -/
def noPeers : Error := .dial "verification peers" "no peers available"

/-- The candidates, of which there has to be one. -/
def candidates : Except Error (List Address) → Except Error (List Address)
  | .ok [] => .error noPeers
  | r => r

/-- The query of a round. -/
def VerificationRequest.query (r : VerificationRequest) : VerifyRequest :=
  ⟨r.id, r.subjectId, r.criteria⟩

/-- The outcome that a peer's response is: the response has to be to the query. -/
def outcomeOf (query : VerifyRequest) (peer : PeerId) (response : VerifyResponse) :
    Except Error Outcome :=
  if response.requestId = query.requestId then .ok ⟨peer, response.verdict⟩
  else .error (.protocol ProtocolId.verify.text
    (.malformed ("answer for " ++ response.requestId ++ " instead of " ++ query.requestId)))

/-- The acceptance that a peer's receipt is: the receipt has to be for the user. -/
def acceptanceOf (userId : String) (peer : PeerId) (receipt : Receipt) : Except Error PeerId :=
  if receipt.id = userId then .ok peer
  else .error (.protocol ProtocolId.newUser.text (.malformed "receipt for another user"))

section Walks

variable {m : Type → Type} [Monad m]

/-- Asks the rest of the candidates; `unknown` is the last outcome of a peer that does not know the
subject, `fault` the last error. -/
def askOn (ask : Address → m (Except Error Outcome)) (unknown : Option Outcome)
    (fault : Option Error) : List Address → m (Except Error Outcome)
  | [] =>
    match unknown, fault with
    | some o, _ => pure (.ok o)
    | none, some e => pure (.error e)
    | none, none => pure (.error .shutdown)
  | a :: rest => do
    match ← ask a with
    | .ok o => if o.verdict = .unknownSubject then askOn ask (some o) fault rest else pure (.ok o)
    | .error e => askOn ask unknown (some e) rest

/-- A verification round. -/
def askInOrder (ask : Address → m (Except Error Outcome)) (peers : Except Error (List Address)) :
    m (Except Error Outcome) :=
  match candidates peers with
  | .error e => pure (.error e)
  | .ok addresses => askOn ask none none addresses

/-- Offers a record to the rest of the candidates; `fault` is the last error. -/
def offerOn (offer : Address → m (Except Error PeerId)) (fault : Option Error) :
    List Address → m (Except Error PeerId)
  | [] => pure (.error (fault.getD .shutdown))
  | a :: rest => do
    match ← offer a with
    | .ok p => pure (.ok p)
    | .error e => offerOn offer (some e) rest

/-- An enrolment. -/
def offerInOrder (offer : Address → m (Except Error PeerId)) (peers : Except Error (List Address)) :
    m (Except Error PeerId) :=
  match candidates peers with
  | .error e => pure (.error e)
  | .ok addresses => offerOn offer none addresses

end Walks

/-- The message that hands over a record sealed under a fresh key and nonce. -/
def NewUser.sealing (userId : String) (record : Record) (key : EnvelopeKey) (nonce : List UInt8) :
    NewUser :=
  ⟨userId, Base64.encode (Envelope.sealWith key nonce (Utf8.octets (Json.Value.render (.object record)))),
    key.toBase64⟩

end SealedCustody
