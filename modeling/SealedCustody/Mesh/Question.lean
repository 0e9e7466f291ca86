import SealedCustody.Mesh.LiveStream

/-!
# Questions and answers

What the mesh does about the questions of programs. `World.pose` answers a question at once or gives a
ticket to wait with, `World.poll` looks whether the answer is there, and `World.expire` gives the answer
of one whose time has come.
-/

namespace SealedCustody

namespace World

/-! ## Dials -/

/-- The text of a span of milliseconds: nanoseconds, microseconds, milliseconds or seconds, with the
fraction that is needed. -/
def spanText (millis : Nat) : String :=
  if millis = 0 then "0ns"
  else if millis < 1000 then toString millis ++ "ms"
  else
    let fraction := (toString (1000 + millis % 1000)).toList.drop 1
    let digits := (fraction.reverse.dropWhile (· = '0')).reverse
    toString (millis / 1000) ++ (if digits.isEmpty then "" else "." ++ String.ofList digits) ++ "s"

/-- The error of a dial that took too long. -/
def timedOut (a : Address) (millis : Nat) : Error :=
  .dial a.text ("timed out after " ++ spanText millis)

/-- How long a dial may take. -/
def dialLimit (w : World) (n : NodeId) (timeout : Option Nat) : Nat :=
  timeout.getD (((w.nodes.get? n).map (·.network.dialTimeout)).getD 0)

/-- A caller at a node wants a connection. -/
def beginDial (w : World) (n : NodeId) (a : Address) (timeout : Option Nat) :
    (Except Error Connection ⊕ Wait) × World :=
  match w.running? n with
  | none => (.inl (.error .shutdown), w)
  | some _ =>
    let (caller, w) := w.draw
    let (dial, w) := w.draw
    let (peer, bare) := a.splitPeer
    let w := w.onEndpoint n fun node => node.endpoint.dial node.listening dial peer bare caller
    (.inr ⟨caller, some (w.now + w.dialLimit n timeout)⟩, w)

/-- Takes the answer of a dial, if it is there. -/
def takeAnswer (w : World) (caller : CallerId) : Option (Except Error Connection) × World :=
  (w.answers.get? caller, { w with answers := w.answers.erase caller })

/-- A caller stops waiting for a dial. -/
def leaveDial (w : World) (n : NodeId) (a : Address) (timeout : Option Nat) (caller : CallerId) :
    Except Error Connection × World :=
  let w := match w.running? n with
    | some _ => w.onEndpoint n fun node => node.endpoint.leave caller
    | none => w
  (.error (timedOut a (w.dialLimit n timeout)), { w with answers := w.answers.erase caller })

/-! ## Openings -/

/-- How long one operation on a stream may take at a node. -/
def streamLimit (w : World) (n : NodeId) : Nat :=
  ((w.nodes.get? n).map (·.network.streamTimeout)).getD 0

/-- How long one operation on a stream may take at one end of it. -/
def endLimit (w : World) (e : StreamEnd) : Nat :=
  ((w.streams.get? e.stream).map fun s => w.streamLimit (s.side e.opener).node).getD 0

/-- Takes the outcome of an opening, if there is one. -/
def takeOpening (w : World) (id : OpeningId) : Option (Except Error StreamEnd) × World :=
  match (w.openings.get? id).bind (·.outcome) with
  | some r => (some r, { w with openings := w.openings.erase id })
  | none => (none, w)

/-! ## Services -/

/-- A service of a node responds to a request. -/
def respond (w : World) (n : NodeId) (s : Service) (request : List UInt8) :
    Except Error (List UInt8) × World :=
  match w.nodes.get? n with
  | none => (.error .shutdown, w)
  | some node =>
    let r := s.respond node.custody request
    let w := w.mapNode n ({ · with custody := r.custody })
    (r.reply, match r.event with
      | some e => w.mapNode n (·.emit e)
      | none => w)

/-- A node seals and keeps an upload. -/
def sealUpload (w : World) (n : NodeId) (request : List UInt8) :
    Except Error SealedUpload × World :=
  match w.nodes.get? n with
  | none => (.error .shutdown, w)
  | some node =>
    let (key, w) := w.drawKey
    let (r, custody) := node.custody.sealUpload key nonce request
    let w := w.mapNode n ({ · with custody })
    (r, match r with
      | .ok upload => w.mapNode n (·.emit (.dataStored upload.block.hash))
      | .error _ => w)

/-- The connections of a node. -/
def connections (w : World) (n : NodeId) : Except Error (List Connection) :=
  match w.running? n with
  | some node => .ok node.endpoint.connections.primaries
  | none => .error .shutdown

/-- A node closes a connection; whether there was one. -/
def closeConnection (w : World) (n : NodeId) (id : ConnectionId) : Except Error Bool × World :=
  match w.running? n with
  | none => (.error .shutdown, w)
  | some node => (.ok (node.endpoint.close id).1, w.onEndpoint n fun node => (node.endpoint.close id).2)

/-- Whether a node has a connection to a peer. -/
def isConnected (w : World) (n : NodeId) (p : PeerId) : Bool :=
  (w.nodes.get? n).any fun node => (node.endpoint.connections.primary? p).isSome

/-! ## Answering -/

/-- A wait that ends some time from now. -/
def waitFor (w : World) (ticket millis : Nat) : Wait := ⟨ticket, some (w.now + millis)⟩

/-- The mesh leaves nothing to chance: a choice falls on the first. -/
def firstOf (among : Nat) : Option (Fin among) := if h : 0 < among then some ⟨0, h⟩ else none

/-- Answers a question at once, or begins to. -/
def pose (w : World) : (q : Query) → (q.Answer ⊕ Wait) × World
  | .dial n a timeout => w.beginDial n a timeout
  | .openStream n p protocol =>
    let (id, w) := w.beginOpening n p protocol
    (.inr (w.waitFor id (w.streamLimit n)), w)
  | .openPing n l => let (r, w) := w.openPing n l; (.inl r, w)
  | .write e payload => let (r, w) := w.write e payload; (.inl r, w)
  | .finish e => let (r, w) := w.finish e; (.inl r, w)
  | .read e =>
    match w.read? e with
    | (some r, w) => (.inl r, w)
    | (none, w) =>
      if w.isAdrift e then let (r, w) := w.readTimedOut e; (.inl r, w)
      else (.inr (w.waitFor 0 (w.endLimit e)), w)
  | .readBlock .. => (.inr ⟨0, none⟩, w)
  | .awaitPong _ => (.inr (w.waitFor 0 Program.pingPatience), w)
  | .pingFailed n l => (.inl (), w.pingFailed n l)
  | .release e => (.inl (), w.release e)
  | .connections n => (.inl (w.connections n), w)
  | .close n id => let (r, w) := w.closeConnection n id; (.inl r, w)
  | .serve n s request => let (r, w) := w.respond n s request; (.inl r, w)
  | .sealUpload n request => let (r, w) := w.sealUpload n request; (.inl r, w)
  | .meet _ _ millis => (.inr (w.waitFor 0 millis), w)
  | .sleep millis => (.inr (w.waitFor 0 millis), w)
  | .choose among => (.inl (firstOf among), w)
  | .never => (.inr ⟨0, none⟩, w)

/-- The answer to a question that was posed, if it is there. -/
def poll (w : World) : (q : Query) → Wait → Option q.Answer × World
  | .dial .., wait => w.takeAnswer wait.ticket
  | .openStream .., wait => w.takeOpening wait.ticket
  | .read e, _ => w.read? e
  | .readBlock e size, _ => w.readBlock? e size
  | .awaitPong e, _ => (if w.hasPong e then some () else none, w)
  | .meet n p _, _ => (if w.isConnected n p then some () else none, w)
  | .openPing .., _ | .write .., _ | .finish _, _ | .pingFailed .., _ | .release _, _
  | .connections _, _ | .close .., _ | .serve .., _ | .sealUpload .., _ | .sleep _, _
  | .choose _, _ | .never, _ => (none, w)

/-- The answer to a question whose time has come. -/
def expire (w : World) : (q : Query) → Wait → Option q.Answer × World
  | .dial n a timeout, wait => let (r, w) := w.leaveDial n a timeout wait.ticket; (some r, w)
  | .openStream _ _ protocol, wait =>
    (some (.error (.protocol protocol.text .timeout)),
      { w with openings := w.openings.erase wait.ticket })
  | .read e, _ => let (r, w) := w.readTimedOut e; (some r, w)
  | .awaitPong _, _ | .meet .., _ | .sleep _, _ => (some (), w)
  | .openPing .., _ | .write .., _ | .finish _, _ | .readBlock .., _ | .pingFailed .., _
  | .release _, _ | .connections _, _ | .close .., _ | .serve .., _ | .sealUpload .., _
  | .choose _, _ | .never, _ => (none, w)

/-- The answer to a question that was posed, if its time has come or the answer is there. An answer
that would be there at the very time comes too late. -/
def answer? (w : World) (q : Query) (wait : Wait) : Option q.Answer × World :=
  if wait.deadline.any (· ≤ w.now) then w.expire q wait else w.poll q wait

end World

end SealedCustody
