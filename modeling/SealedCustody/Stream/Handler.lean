import SealedCustody.Custody
import SealedCustody.Event

/-!
# Protocol handlers

A handler serves one stream: it takes the whole request and gives a reply, and a stream that it fails
on is closed without one. The built-in handlers of a custody node are functions of the node's custody
and the request. An upload is answered in two parts, since a copy is offered to another node in between.
-/

namespace SealedCustody

/-- A built-in handler that needs no other node. -/
inductive Service where
  | print
  | echo
  | newUser
  | store
  | verify
deriving DecidableEq, Repr, Inhabited

/-- A handler that gives one fixed reply. -/
structure FixedHandler where
  /-- Whether it takes the whole request first. -/
  readsFirst : Bool
  /-- Whether it never answers. -/
  hangs : Bool
  /-- The reply; without one the handler fails. -/
  reply : Option (List UInt8)
deriving DecidableEq, Repr, Inhabited

/-- What serves the streams of a protocol. -/
inductive Handler where
  | service (s : Service)
  /-- Seals what it is sent, keeps it and offers a copy to another node. -/
  | upload
  | fixed (h : FixedHandler)
deriving DecidableEq, Repr, Inhabited

/-! ## Registering -/

/-- The handlers of a node. -/
abbrev Handlers := Table ProtocolId Handler

namespace Handlers

/-- Adds a handler for a protocol that has none. -/
def register (hs : Handlers) (p : ProtocolId) (h : Handler) : Except Error Handlers :=
  if hs.contains p then .error (.protocol p.text .alreadyRegistered) else .ok (hs.insert p h)

/-- The built-in handlers in the order in which they are registered. -/
def builtin : List (ProtocolId × Handler) :=
  [(.print, .service .print), (.echo, .service .echo), (.newUser, .service .newUser),
    (.store, .service .store), (.upload, .upload), (.verify, .service .verify)]

/-- Adds handlers up to the first whose protocol has one. -/
def registerAll (hs : Handlers) : List (ProtocolId × Handler) → Except Error Unit × Handlers
  | [] => (.ok (), hs)
  | (p, h) :: rest =>
    match hs.register p h with
    | .ok hs => registerAll hs rest
    | .error e => (.error e, hs)

end Handlers

/-! ## Serving -/

/-- What comes of a request. -/
structure Response where
  custody : Custody
  /-- The reply, or why there is none. -/
  reply : Except Error (List UInt8)
  event : Option Event

namespace Response

/-- A request that is not served. -/
def refused (c : Custody) (e : Error) : Response := ⟨c, .error e, none⟩

end Response

/-- Takes in a user record and answers with a receipt for it. -/
def Custody.enroll (c : Custody) (request : List UInt8) : Response :=
  match ProtocolId.newUser.decode NewUser.format request with
  | .error e => .refused c e
  | .ok m =>
    match c.putUser m with
    | (.error e, c) => .refused c e
    | (.ok (), c) =>
      ⟨c, .ok (Utf8.octets (Receipt.format.encode ⟨m.id⟩)), some (.userEnrolled m.id)⟩

/-- Takes in a block and answers with a receipt for it. -/
def Custody.keep (c : Custody) (request : List UInt8) : Response :=
  match ProtocolId.store.decode DataBlock.format request with
  | .error e => .refused c e
  | .ok b =>
    match c.putBlock b with
    | (.error e, c) => .refused c e
    | (.ok (), c) =>
      ⟨c, .ok (Utf8.octets (Receipt.format.encode ⟨b.hash⟩)), some (.dataStored b.hash)⟩

/-- Answers a query. -/
def Custody.answerQuery (c : Custody) (request : List UInt8) : Response :=
  match ProtocolId.verify.decode VerifyRequest.format request with
  | .error e => .refused c e
  | .ok q =>
    ⟨c, .ok (Utf8.octets (VerifyResponse.format.encode
      ⟨q.requestId, c.verdict q.subjectId q.criteria⟩)), none⟩

/-! ## Uploads -/

/-- An upload that was sealed and kept: the block to offer to another node, and the receipt. -/
structure SealedUpload where
  block : DataBlock
  receipt : UploadReceipt
deriving DecidableEq, Repr

/-- The block of an envelope. -/
def DataBlock.ofEnvelope (envelope : List UInt8) : DataBlock :=
  ⟨contentHash envelope, Base64.encode envelope⟩

/-- The plaintext that an upload holds. -/
def UploadRequest.plaintext (m : UploadRequest) : Except Error (List UInt8) :=
  match Base64.decodeTrimmed? m.data with
  | some bs => .ok bs
  | none => .error (.protocol ProtocolId.upload.text (.malformed "not in canonical form"))

/-- Seals an upload under a fresh key and nonce and keeps the envelope. -/
def Custody.sealUpload (c : Custody) (key : EnvelopeKey) (nonce request : List UInt8) :
    Except Error SealedUpload × Custody :=
  match ProtocolId.upload.decode UploadRequest.format request with
  | .error e => (.error e, c)
  | .ok m =>
    match m.plaintext with
    | .error e => (.error e, c)
    | .ok plaintext =>
      let block := DataBlock.ofEnvelope (Envelope.sealWith key nonce plaintext)
      match c.putBlock block with
      | (.error e, c) => (.error e, c)
      | (.ok (), c) => (.ok ⟨block, ⟨block.hash, key.toBase64⟩⟩, c)

/-- The response of a service to a request. -/
def Service.respond (s : Service) (c : Custody) (request : List UInt8) : Response :=
  match s with
  | .print =>
    match ProtocolId.print.decode PrintMessage.format request with
    | .error e => .refused c e
    | .ok _ => ⟨c, .ok [], none⟩
  | .echo => ⟨c, .ok request, none⟩
  | .newUser => c.enroll request
  | .store => c.keep request
  | .verify => c.answerQuery request

end SealedCustody
