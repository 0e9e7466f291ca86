import SealedCustody.Mesh.Program
import SealedCustody.Node
import SealedCustody.Verification.Walk

/-!
# Exchanges

The programs of a node: one request and its reply over a stream, the serving of a stream by a handler,
a verification round and an enrolment over the network.
-/

namespace SealedCustody

/-- What came of an exchange: the octets sent, and the reply if it was waited for. -/
structure Ack where
  bytesSent : Nat
  response : Option (List UInt8)
deriving DecidableEq, Repr, Inhabited

namespace Program

/-! ## Single questions -/

/-- Opens a stream to a peer. -/
def openStream (node : NodeId) (peer : PeerId) (p : ProtocolId) : Program (Except Error StreamEnd) :=
  query (.openStream node peer p)

/-- Writes a payload. -/
def write (e : StreamEnd) (payload : List UInt8) : Program (Except Error Unit) :=
  query (.write e payload)

/-- Closes the write side. -/
def finish (e : StreamEnd) : Program (Except Error Unit) := query (.finish e)

/-- Reads a whole message. -/
def read (e : StreamEnd) : Program (Except Error (List UInt8)) := query (.read e)

/-- The connections of a node. -/
def connections (node : NodeId) : Program (Except Error (List Connection)) :=
  query (.connections node)

/-- Closes a connection; whether there was one. -/
def close (node : NodeId) (id : ConnectionId) : Program (Except Error Bool) :=
  query (.close node id)

/-- Lets time pass. -/
def sleep (millis : Nat) : Program Unit := query (.sleep millis)

/-! ## Requests -/

/-- Dials the address that a text gives, within some time or the node's own limit. -/
def connect (node : NodeId) (text : String) (timeout : Option Nat) :
    Program (Except Error Connection) :=
  match Address.ofText text with
  | .error e => done (.error e)
  | .ok a => query (.dial node a timeout)

/-- Opens a stream, runs a program with it and lets go of it. -/
def withStream {α : Type} (node : NodeId) (c : Connection) (p : ProtocolId)
    (f : StreamEnd → Program (Except Error α)) : Program (Except Error α) :=
  andThen (query (.openStream node c.peer p)) fun e => do
    let r ← f e
    query (.release e)
    return r

/-- Writes a payload and closes the write side. -/
def sendMessage (e : StreamEnd) (payload : List UInt8) : Program (Except Error Unit) :=
  andThen (query (.write e payload)) fun () => query (.finish e)

/-- Sends a payload and, if asked to, waits for the whole reply. -/
def send (node : NodeId) (c : Connection) (p : ProtocolId) (payload : List UInt8) (awaits : Bool) :
    Program (Except Error Ack) :=
  withStream node c p fun e => andThen (sendMessage e payload) fun () =>
    if awaits then
      andThen (query (.read e)) fun reply => done (.ok ⟨payload.length, some reply⟩)
    else done (.ok ⟨payload.length, none⟩)

/-- Sends a payload and reads the reply as a message. -/
def request {α : Type} (node : NodeId) (c : Connection) (p : ProtocolId) (f : Json.Format α)
    (payload : List UInt8) : Program (Except Error α) :=
  andThen (send node c p payload true) fun ack => done (p.decode f (ack.response.getD []))

/-! ## Serving -/

/-- Offers a block to one connected peer, but not to the one that it came from. -/
def replicate (node : NodeId) (uploader : PeerId) (block : DataBlock) : Program Unit := do
  match ← query (.connections node) with
  | .error _ => return
  | .ok connections =>
    let candidates := connections.filter (·.peer ≠ uploader)
    match ← query (.choose candidates.length) with
    | none => return
    | some i =>
      let _ ← request node (candidates.get i) .store Receipt.format
        (Utf8.octets (DataBlock.format.encode block))
      return

/-- Serves one stream from a peer. -/
def serve (node : NodeId) (peer : PeerId) (e : StreamEnd) : Handler → Program (Except Error Unit)
  | .service s =>
    andThen (query (.read e)) fun request => andThen (query (.serve node s request)) fun reply =>
      if s = .print then done (.ok ()) else sendMessage e reply
  | .upload =>
    andThen (query (.read e)) fun request =>
      andThen (query (.sealUpload node request)) fun upload => do
        replicate node peer upload.block
        sendMessage e (Utf8.octets (UploadReceipt.format.encode upload.receipt))
  | .fixed h => do
    let read ← if h.readsFirst then query (.read e) else done (.ok [])
    match read with
    | .error fault => return .error fault
    | .ok _ =>
      if h.hangs then ask .never nofun
      else match h.reply with
        | none => return .error (.protocol "" (.io "no reply"))
        | some reply => sendMessage e reply

/-- Serves one stream and closes it afterwards. -/
def serveAndClose (node : NodeId) (peer : PeerId) (e : StreamEnd) (h : Handler) : Program Unit := do
  let _ ← serve node peer e h
  let _ ← query (.finish e)
  query (.release e)

/-! ## Pings -/

/-- The octets in a ping. -/
def pingSize : Nat := 32

/-- The milliseconds that a ping may take. -/
def pingPatience : Nat := 20000

/-- Pings over a link whose other end answers pings by a handler of its own. The answer is never the
one expected. -/
def pingBadly (node : NodeId) (link : ConnectionId) : Program Unit := do
  match ← query (.openPing node link) with
  | none => return
  | some e =>
    let _ ← query (.write e (List.replicate pingSize 0))
    query (.awaitPong e)
    query (.release e)
    query (.pingFailed node link)

/-- Sends so many pings back as they arrive. -/
def sendBack (e : StreamEnd) : Nat → Program Unit
  | 0 => done ()
  | pings + 1 => do
    match ← query (.readBlock e pingSize) with
    | none => return
    | some ping =>
      let _ ← query (.write e ping)
      sendBack e pings

/-- The pings that are sent back on one stream. -/
def pongLimit : Nat := 1000000000

/-- Sends pings back until the stream ends, and closes it. -/
def pong (e : StreamEnd) : Program Unit := do
  sendBack e pongLimit
  let _ ← query (.finish e)
  query (.release e)

/-! ## Asking and enrolling -/

/-- The candidates that a source gives. -/
def peersOf (node : NodeId) : PeerSource → Program (Except Error (List Address))
  | .listed as => done (.ok as)
  | .connected => andThen (query (.connections node)) fun cs =>
      done (.ok (cs.map fun c => c.remote.withPeer c.peer))

/-- Asks the peer at an address. -/
def askPeer (node : NodeId) (q : VerifyRequest) (a : Address) : Program (Except Error Outcome) :=
  andThen (query (.dial node a none)) fun c =>
    andThen (request node c .verify VerifyResponse.format (Utf8.octets (VerifyRequest.format.encode q)))
      fun response => done (outcomeOf q c.peer response)

/-- A verification round. -/
def dispatch (node : NodeId) (source : PeerSource) (r : VerificationRequest) :
    Program (Except Error Outcome) := do
  askInOrder (askPeer node r.query) (← peersOf node source)

/-- Offers a sealed record to the peer at an address. -/
def offerPeer (node : NodeId) (m : NewUser) (a : Address) : Program (Except Error PeerId) :=
  andThen (query (.dial node a none)) fun c =>
    andThen (request node c .newUser Receipt.format (Utf8.octets (NewUser.format.encode m)))
      fun receipt => done (acceptanceOf m.id c.peer receipt)

/-- An enrolment. -/
def enroll (node : NodeId) (source : PeerSource) (m : NewUser) : Program (Except Error PeerId) := do
  offerInOrder (offerPeer node m) (← peersOf node source)

end Program

end SealedCustody
