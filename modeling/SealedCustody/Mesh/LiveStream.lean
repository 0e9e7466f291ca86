import SealedCustody.Mesh.Link

/-!
# Streams in the mesh

Opening a stream takes a connection to the peer and a handler for the protocol at the other end, which
is set to serve it. What one side writes has arrived at the other at once. A side that lets go of a
stream ends what arrives at the other.
-/

namespace SealedCustody

namespace World

/-! ## Sides -/

/-- The error of an operation on a stream. -/
def streamError (s : LiveStream) (f : ProtocolFault) : Error := .protocol s.protocol.text f

/-- Changes one side of a stream. -/
def mapSide (w : World) (e : StreamEnd) (f : StreamSide → StreamSide) : World :=
  w.mapStream e.stream (·.mapSide e.opener f)

/-- Changes the side that is not this end. -/
def mapFarSide (w : World) (e : StreamEnd) (f : StreamSide → StreamSide) : World :=
  w.mapStream e.stream (·.mapSide (!e.opener) f)

/-- Whether the connection under one side of a stream was told to have gone. -/
def isSevered (w : World) (side : StreamSide) : Bool :=
  (w.nodes.get? side.node).any fun node =>
    node.endpoint.connections.closures.isFired side.signal

/-- Gives a node a signal of the closing of its connection to a peer. -/
def subscribe (w : World) (n : NodeId) (node : Node) (p : PeerId) : SignalId × World :=
  let (signal, closures) := node.endpoint.connections.closures.subscribe p
  (signal, w.mapNode n fun node =>
    let connections := { node.endpoint.connections with closures }
    { node with endpoint := { node.endpoint with connections } })

/-- A fresh side at a node. One that does not count carries pings, whatever the node's limit. -/
def freshSide (n : NodeId) (node : Node) (signal : SignalId) (counts : Bool) : StreamSide :=
  let limit := node.network.maxMessageBytes
  let limit := if counts then limit else Nat.max limit Program.pingSize
  ⟨n, ⟨limit, false⟩, signal, [], false, true, counts⟩

/-! ## What answers -/

/-- The protocol by which a node tells that it has changed. -/
def changeProtocol : ProtocolId := ⟨"/ipfs/id/push/1.0.0"⟩

/-- What answers a stream. -/
structure Answerer where
  program : StreamEnd → Program Unit
  /-- Whether the stream keeps the link from being idle at the end that answers. -/
  counts : Bool

/-- Answers by a handler of the node's own. -/
def handled (n : NodeId) (peer : PeerId) (h : Handler) : Answerer := ⟨(.serveAndClose n peer · h), true⟩

/-- What answers a stream from a peer: the handler for the protocol, or else what every node has. A node
that is asked about itself says nothing here, since its addresses are exchanged when a link comes up. -/
def answerer? (n : NodeId) (node : Node) (peer : PeerId) (p : ProtocolId) : Option Answerer :=
  let standing (readsFirst : Bool) : Answerer :=
    { handled n peer (.fixed ⟨readsFirst, false, some []⟩) with counts := false }
  match node.handlers.get? p with
  | some h => some (handled n peer h)
  | none =>
    if p = pingProtocol then some ⟨.pong, false⟩
    else if p = identityProtocol then some (standing false)
    else if p = changeProtocol then some (standing true)
    else none

/-! ## Opening -/

/-- What a stream is opened between: this node with its signal, and the node at the other end. -/
structure Meeting where
  link : ConnectionId
  node : NodeId
  caller : Node
  signal : SignalId
  far : NodeId
  callee : Node

/-- Puts a stream on a link and sets going what answers it. -/
def connectStream (w : World) (m : Meeting) (p : ProtocolId) (counts : Bool) (a : Answerer) :
    StreamEnd × World :=
  let (id, w) := w.draw
  let (signal, w) := w.subscribe m.far m.callee m.caller.peerId
  let w := { w with streams := w.streams.insert id ⟨m.link, p,
    freshSide m.node m.caller m.signal counts, freshSide m.far m.callee signal a.counts⟩ }
  (⟨id, true⟩, w.spawn (a.program ⟨id, false⟩))

/-- The node at the other end of a link, if both ends are running. -/
def meeting? (w : World) (l : ConnectionId) (n : NodeId) (signal : SignalId) : Option Meeting := do
  let link ← w.links.get? l
  let caller ← w.running? n
  let callee ← w.running? (link.opposite n)
  return ⟨l, n, caller, signal, link.opposite n, callee⟩

/-- Sets the outcome of an opening. -/
def settleOpening (w : World) (id : OpeningId) (o : Opening) (r : Except Error StreamEnd) : World :=
  { w with openings := w.openings.insert id { o with waiting := false, outcome := some r } }

/-- Begins to open a stream. Without a connection to the peer its learned addresses are dialed. -/
def beginOpening (w : World) (n : NodeId) (p : PeerId) (protocol : ProtocolId) : OpeningId × World :=
  let (id, w) := w.draw
  match w.nodes.get? n with
  | none => (id, w)
  | some node =>
    let (signal, w) := w.subscribe n node p
    let linked := (node.endpoint.links.linkTo? p).isSome
    let o : Opening := ⟨n, p, protocol, signal, !linked, none⟩
    let w := { w with openings := w.openings.insert id o }
    if linked then (id, w.schedule 0 (.negotiate id))
    else
      let (dial, w) := w.draw
      let dialing (node : Node) := node.endpoint.dialLearned node.listening dial p
      if node.running && (dialing node).1 then (id, w.onEndpoint n fun node => (dialing node).2)
      else (id, w.failOpenings n p)

/-- The ends of a link settle what a stream is for. -/
def negotiate (w : World) (id : OpeningId) : World :=
  match w.openings.get? id with
  | none => w
  | some o =>
    let link := (w.nodes.get? o.node).bind fun node => node.endpoint.links.linkTo? o.peer
    match link.bind fun l => w.meeting? l o.node o.signal with
    | none => w.settleOpening id o (.error (.protocol o.protocol.text (.io "no connection")))
    | some m =>
      let w := w.mapLink m.link (·.touch w.now)
      match answerer? m.far m.callee m.caller.peerId o.protocol with
      | none => w.settleOpening id o (.error (.protocol o.protocol.text .unsupported))
      | some a =>
        let (e, w) := w.connectStream m o.protocol true a
        w.settleOpening id o (.ok e)

/-- Opens a stream to the handler of pings at the other end of a link. It does not keep the link from
being idle at this end. -/
def openPing (w : World) (n : NodeId) (l : ConnectionId) : Option StreamEnd × World :=
  match w.meeting? l n 0 with
  | none => (none, w)
  | some m =>
    match m.callee.handlers.get? pingProtocol with
    | none => (none, w)
    | some h =>
      let (signal, w) := w.subscribe n m.caller m.callee.peerId
      let w := w.mapLink l (·.touch w.now)
      let (e, w) := w.connectStream { m with signal } pingProtocol false
        (handled m.far m.caller.peerId h)
      (some e, w)

/-! ## Writing and reading -/

/-- The connection under a stream is no more. -/
def linkGone : ProtocolFault := .io "no connection"

/-- Why nothing can be sent from one side of a stream, if nothing can. -/
def sendFault? (w : World) (s : LiveStream) (side : StreamSide) : Option ProtocolFault :=
  if w.isSevered side then some .connectionClosed
  else if !w.links.contains s.link then some linkGone
  else none

/-- Something arrives at a side of a stream; nobody takes it once the side was let go of. -/
def arrive (payload : List UInt8) (side : StreamSide) : StreamSide :=
  if side.held then { side with inbox := side.inbox ++ payload } else side

/-- Writes a payload. -/
def write (w : World) (e : StreamEnd) (payload : List UInt8) : Except Error Unit × World :=
  match w.streams.get? e.stream with
  | none => (.error .shutdown, w)
  | some s =>
    let side := s.side e.opener
    match side.writer.write payload with
    | .error f => (.error (streamError s f), w)
    | .ok sent =>
      match w.sendFault? s side with
      | some f => (.error (streamError s f), w)
      | none => (.ok (), w.mapFarSide e (arrive sent))

/-- Closes the write side, if it is not closed. -/
def finish (w : World) (e : StreamEnd) : Except Error Unit × World :=
  match w.streams.get? e.stream with
  | none => (.error .shutdown, w)
  | some s =>
    let side := s.side e.opener
    if side.writer.closed then (.ok (), w)
    else
      let w := w.mapSide e fun side => { side with writer := side.writer.close }
      match w.sendFault? s side with
      | some f => (.error (streamError s f), w)
      | none => (.ok (), w.mapFarSide e ({ · with ended := true }))

/-- Reads a whole message, if all of it has arrived. -/
def read? (w : World) (e : StreamEnd) : Option (Except Error (List UInt8)) × World :=
  match w.streams.get? e.stream with
  | none => (some (.error .shutdown), w)
  | some s =>
    let side := s.side e.opener
    if w.isSevered side then (some (.error (streamError s .connectionClosed)), w)
    else match (StreamReader.start side.writer.limit).feed side.inbox side.ended with
      | (.more _, _) => (none, w)
      | (.done r, rest) =>
        (some (r.mapError (streamError s)), w.mapSide e ({ · with inbox := rest }))

/-- Whether the connection under a stream is no more. A side that is not told of that waits in vain. -/
def isAdrift (w : World) (e : StreamEnd) : Bool :=
  (w.streams.get? e.stream).any fun s => !w.links.contains s.link

/-- A read has come to nothing in its time. What it had taken is lost. -/
def readTimedOut (w : World) (e : StreamEnd) : Except Error (List UInt8) × World :=
  match w.streams.get? e.stream with
  | none => (.error .shutdown, w)
  | some s =>
    let fault := if w.links.contains s.link then .timeout else linkGone
    (.error (streamError s fault), w.mapSide e ({ · with inbox := [] }))

/-- Reads so many octets, if they have arrived, or learns that they never will. -/
def readBlock? (w : World) (e : StreamEnd) (size : Nat) : Option (Option (List UInt8)) × World :=
  match w.streams.get? e.stream with
  | none => (some none, w)
  | some s =>
    let side := s.side e.opener
    if size ≤ side.inbox.length then
      (some (some (side.inbox.take size)), w.mapSide e ({ · with inbox := side.inbox.drop size }))
    else (if side.ended || w.isAdrift e then some none else none, w)

/-- Whether the answer to a ping has arrived, or none will. -/
def hasPong (w : World) (e : StreamEnd) : Bool :=
  match w.streams.get? e.stream with
  | none => true
  | some s =>
    let side := s.side e.opener
    side.ended || Program.pingSize ≤ side.inbox.length || w.isSevered side || w.isAdrift e

/-- Whether the write side of an end is closed. -/
def isFinished (w : World) (e : StreamEnd) : Bool :=
  (w.streams.get? e.stream).any fun s => (s.side e.opener).writer.closed

/-- How an end of a stream to a peer is shown. -/
def streamShown (w : World) (e : StreamEnd) (p : PeerId) (protocol : ProtocolId) : String :=
  "ProtocolStream \x7b peer: " ++ p.shown ++ ", protocol: ProtocolId(\"" ++ protocol.text
    ++ "\"), write_closed: " ++ toString (w.isFinished e) ++ ", .. \x7d"

/-- Lets go of a stream. -/
def release (w : World) (e : StreamEnd) : World :=
  match w.streams.get? e.stream with
  | none => w
  | some s =>
    let side := s.side e.opener
    let w := if side.counts then
        w.mapLink s.link (·.mapEnd side.node ({ · with since := w.now }))
      else w
    let w := w.mapSide e ({ · with held := false })
    let w := if w.isAdrift e then w else w.mapFarSide e ({ · with ended := true })
    if (s.side (!e.opener)).held then w else { w with streams := w.streams.erase e.stream }

end World

end SealedCustody
