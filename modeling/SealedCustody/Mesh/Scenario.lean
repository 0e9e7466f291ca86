import SealedCustody.Mesh.Nodes

/-!
# Courses of events

Several things that are done one after the other or at once: dialing many times, closing twice, sending
over a connection that was closed, a visit by a node that is then let go of.
-/

namespace SealedCustody

namespace World

/-- The values that jobs came to, run to their end. -/
def valuesOf {α : Type} (w : World) (jobs : List (Job α)) : List α × World :=
  let (jobs, w) := w.complete jobs
  (jobs.filterMap (·.value?), w)

/-- Runs programs at once to their end. -/
def performAll {α : Type} (w : World) (ps : List (Program α)) : List α × World :=
  let (jobs, w) := w.launch ps
  w.valuesOf jobs

/-- The milliseconds after which a node stops that is to do so while it dials. -/
def stopDelay : Nat := 20

/-- A node dials an address some number of times at once, and may be stopped a little later. -/
def dialMany (w : World) (n : NodeId) (text : String) (timeout : Option Nat) (times : Nat)
    (stops : Bool) : List (Except Error Connection) × World :=
  let dials := List.replicate times (Program.connect n text timeout)
  if stops then
    let stop := w.now + stopDelay
    let (rs, w) := (w.schedule stopDelay (.stop n)).performAll dials
    (rs, (w.perform (.sleep (stop - w.now))).2)
  else w.performAll dials

/-- Closes a connection, and once more when it is closed. -/
def closeTwice (w : World) (n : NodeId) (id : ConnectionId) : List (Except Error Bool) × World :=
  let (first, w) := w.closeConnection n id
  let (second, w) := w.settle.closeConnection n id
  ([first, second], w)

/-- A node dials an address, stays for a while and is let go of. -/
def visit (w : World) (n : NodeId) (text : String) (millis : Nat) :
    Option (Except Error Connection) × World :=
  let (r, w) := w.perform (.connect n text none)
  (r, ((w.perform (.sleep millis)).2).forsake n)

/-- Sends a payload over a connection some time after which it was closed; the peer may be stopped
before that, and some address dialed at the same time. The outcomes of the closing, the sending and the
dialing. -/
def sendStale (w : World) (n : NodeId) (c : Connection) (p : ProtocolId) (payload : List UInt8)
    (stopped : Option NodeId) (redialed : Option String) :
    Except Error Bool × List (Except Error Ack ⊕ Except Error Connection) × World :=
  let (closed, w) := ((w.perform (.sleep 100)).2).closeConnection n c.id
  let w := w.settle
  let w := match stopped with
    | some m => (w.stop m).settle
    | none => w
  let send := (Program.send n c p payload true).bind (.done ∘ .inl)
  let redial := redialed.map fun text => (Program.connect n text none).bind (.done ∘ .inr)
  (closed, w.performAll (send :: redial.toList))

/-- The number of connections that a node has to another. One that was stopped has none. -/
def connectionCount (w : World) (n m : NodeId) : Nat :=
  match w.running? n, w.nodes.get? m with
  | some node, some other => node.endpoint.connections.count other.peerId
  | _, _ => 0

/-- The plaintext of a block that a node holds. -/
def openBlock? (w : World) (n : NodeId) (r : UploadReceipt) : Option (List UInt8) := do
  Envelope.open? (← (EnvelopeKey.ofBase64 r.key).toOption)
    (← (← w.nodes.get? n).custody.block? r.hash)

/-- Whether a node holds a block. -/
def holds (w : World) (hash : String) (n : NodeId) : Bool :=
  (w.nodes.get? n).any fun node => (node.custody.block? hash).isSome

end World

/-- Asks a node to seal, keep and replicate some data in Base64. -/
def Program.upload (n : NodeId) (c : Connection) (data : String) :
    Program (Except Error UploadReceipt) :=
  request n c .upload UploadReceipt.format (UploadRequest.format.octets ⟨data⟩)

end SealedCustody
