import SealedCustody.Mesh.Exchange
import SealedCustody.Mesh.World

/-!
# Links

How a dial comes to a link, how a link goes down, and how the ends of a link see whether it is alive. A
dial is made at once if a node listens where it reaches; it fails at once if nobody is there, or someone
who is not the peer; and it hangs if what is there keeps silent. The end that dialed sees a link first,
and when it goes down at once the other end never sees it.
-/

namespace SealedCustody

namespace World

/-! ## Reaching -/

/-- What is found at an address. -/
inductive Contact where
  | nobody
  | stranger (s : Stranger)
  | node (n : NodeId)
deriving DecidableEq, Repr

/-- The first node with a listener of some kind. -/
def listening? (w : World) (isSuch : Listener → Bool) : Option NodeId :=
  (w.nodes.entries.find? fun e => e.2.listeners.any isSuch).map Prod.fst

/-- The node that listens at a socket. One bound to it goes before one bound to a wildcard. -/
def listenerAt? (w : World) (s : Socket) : Option NodeId :=
  (w.listening? (·.bound = s)).or (w.listening? (·.accepts s))

/-- What is found at an address. -/
def contact (w : World) (a : Address) : Contact :=
  match a.socket? with
  | none => .nobody
  | some s =>
    if s.isDialable && w.machine.has s.host then
      match w.strangers.lookup s, w.listenerAt? s with
      | some stranger, _ => .stranger stranger
      | none, some n => .node n
      | none, none => .nobody
    else .nobody

/-- Whether a node found by a dial is the one that it is for. -/
def isSought (w : World) (caller : Node) (d : FlyingDial) (n : NodeId) : Bool :=
  (w.nodes.get? n).any fun node =>
    node.peerId ≠ caller.peerId && d.peer.all fun p => p = node.peerId

/-- The node that a dial comes to and the address at which it does. -/
def found? (w : World) (caller : Node) (d : FlyingDial) : Option (NodeId × Address) :=
  d.addresses.findSome? fun a =>
    match w.contact a with
    | .node n => if w.isSought caller d n then some (n, a) else none
    | _ => none

/-- Why a dial that comes to nothing has failed. -/
def faultOf (w : World) (d : FlyingDial) : DialFault :=
  if d.addresses.all fun a => w.contact a ≠ .nobody then .unauthenticated else .unreachable

/-! ## Streams that wait for a connection -/

/-- The opening of a stream has failed. -/
def Opening.fail (o : Opening) (f : ProtocolFault) : Opening :=
  { o with waiting := false, outcome := some (.error (.protocol o.protocol.text f)) }

/-- Whether an opening waits for a connection between a node and a peer. -/
def Opening.awaits (o : Opening) (n : NodeId) (p : PeerId) : Bool :=
  o.waiting && o.node = n && o.peer = p

/-- There will be no connection to a peer. -/
def failOpenings (w : World) (n : NodeId) (p : PeerId) : World :=
  { w with openings := w.openings.mapValues fun o =>
      if Opening.awaits o n p then Opening.fail o (.io "no connection") else o }

/-- There is a connection to a peer. -/
def wakeOpenings (w : World) (n : NodeId) (p : PeerId) : World :=
  let woken := (w.openings.entries.filter fun e => Opening.awaits e.2 n p).map Prod.fst
  let w := { w with openings := w.openings.mapValues fun o =>
    if Opening.awaits o n p then { o with waiting := false } else o }
  woken.foldl (fun w id => w.schedule 0 (.negotiate id)) w

/-! ## Links that come up and go down -/

/-- The protocol by which a node tells who it is and where it listens. -/
def identityProtocol : ProtocolId := ⟨"/ipfs/id/1.0.0"⟩

/-- The addresses that a node tells those it is linked to, unless a handler of its own answers them. -/
def told? (node : Node) : Option (List Address) :=
  if node.handlers.contains identityProtocol then none else some node.listening

/-- A node sees a link to another, which one of them dialed. -/
def seeLink (w : World) (n : NodeId) (other : Node) (l : LiveConnection) : World :=
  let w := w.onEndpoint n fun node => node.endpoint.established other.peerId l (told? other)
  w.wakeOpenings n other.peerId

/-- Links a node that dialed to the node that it came to. What the first makes of the link comes before
the other sees it. -/
def join (w : World) (dial : ConnectionId) (n m : NodeId) (peer : Option PeerId) (a : Address) :
    World :=
  match w.nodes.get? n, w.nodes.get? m with
  | some dialer, some listener =>
    let (port, machine) := w.machine.drawPort
    let w := { w with
      machine
      links := w.links.insert dial ⟨⟨n, w.now, false⟩, ⟨m, w.now, false⟩⟩ }
    let w := w.seeLink n listener ⟨dial, Connections.targetOf peer a, dialer.peerId⟩
    let w := w.schedule 0 (.welcome dial (Socket.address ⟨.loopback4, port⟩))
    w.schedule 0 (.ping n dial)
  | _, _ => w

/-- A dial has ended without a link. -/
def dialFailed (w : World) (n : NodeId) (dial : ConnectionId) (d : FlyingDial) (f : DialFault) :
    World :=
  let w := w.onEndpoint n fun node => node.endpoint.dialFailed dial f
  match d.peer with
  | some p => w.failOpenings n p
  | none => w

/-- A dial in flight at a node that is running. -/
def dialing? (w : World) (n : NodeId) (dial : ConnectionId) : Option (Node × FlyingDial) :=
  (w.running? n).bind fun node =>
    (node.endpoint.links.dialing.get? dial).map fun d => (node, d)

/-- The milliseconds in which a connection has to be set up. -/
def setUpLimit : Nat := 10000

/-- A dial reaches for its addresses. -/
def reach (w : World) (n : NodeId) (dial : ConnectionId) : World :=
  match w.dialing? n dial with
  | none => w
  | some (node, d) =>
    if d.aborting then w
    else match w.found? node d with
      | some (m, a) => w.join dial n m d.peer a
      | none =>
        if d.addresses.any fun a => w.contact a = .stranger .silent then
          w.schedule setUpLimit (.tooLate n dial)
        else w.dialFailed n dial d (w.faultOf d)

/-- A dial has taken too long. -/
def giveUp (w : World) (n : NodeId) (dial : ConnectionId) : World :=
  match w.dialing? n dial with
  | none => w
  | some (_, d) => w.dialFailed n dial d .tooLate

/-- A dial that was broken off ends. -/
def breakOff (w : World) (n : NodeId) (dial : ConnectionId) : World :=
  match w.dialing? n dial with
  | none => w
  | some _ => w.onEndpoint n fun node => node.endpoint.dialFailed dial .abandoned

/-- One end of a link that went down is told. -/
def tellDown (l : ConnectionId) (link : Link) (w : World) (n : NodeId) : World :=
  match w.running? n, w.nodes.get? (link.opposite n) with
  | some _, some other => w.onEndpoint n fun node => node.endpoint.closed other.peerId l
  | _, _ => w

/-- A link goes down. -/
def takeDown (w : World) (l : ConnectionId) : World :=
  match w.links.get? l with
  | none => w
  | some link =>
    let w := { w with links := w.links.erase l }
    (link.ends.map (·.node)).foldl (tellDown l link) w

/-- A link comes up at the end that listens, where the dialer has a socket of its own. -/
def welcome (w : World) (l : ConnectionId) (caller : Address) : World :=
  match w.links.get? l with
  | none => w
  | some link =>
    match w.running? link.listener.node, w.nodes.get? link.dialer.node with
    | some _, some dialer =>
      let w := w.seeLink link.listener.node dialer ⟨l, caller, dialer.peerId⟩
      w.schedule 0 (.ping link.listener.node l)
    | _, _ => w.takeDown l

/-- Stops the connections and listeners of a node. -/
def stopTransport (w : World) (n : NodeId) : World :=
  match w.running? n with
  | none => w
  | some _ => (w.onEndpoint n fun node => node.endpoint.stop).mapNode n (·.shutDown)

/-! ## Idle links -/

/-- Whether a stream keeps a link from being idle at the end at a node. -/
def isBusy (w : World) (l : ConnectionId) (n : NodeId) : Bool := w.streams.values.any (·.keeps l n)

/-- The time at which a link will have been idle for too long. -/
def idleAt? (w : World) (l : ConnectionId) (link : Link) : Option Nat :=
  (link.ends.filterMap fun e =>
    if w.isBusy l e.node then none
    else (w.running? e.node).map fun node => e.since + node.network.idleTimeout).min?

/-- The links with the times at which they will have been idle for too long. -/
def idleTimes (w : World) : List (Nat × ConnectionId) :=
  w.links.entries.filterMap fun e => (w.idleAt? e.1 e.2).map fun t => (t, e.1)

/-! ## Pings -/

/-- The protocol of pings. -/
def pingProtocol : ProtocolId := ⟨"/ipfs/ping/1.0.0"⟩

/-- How long an answered ping takes. -/
def roundTrip : Span := { seconds := 0, nanos := 1 }

/-- Whether the node at the other end of a link answers pings by a handler of its own. -/
def answersBadly (w : World) (n : NodeId) (link : Link) : Bool :=
  (w.running? (link.opposite n)).any fun other => other.handlers.contains pingProtocol

/-- A node pings over a link. An answer is as good as ever from then on, so that no later ping is
sent. -/
def ping (w : World) (n : NodeId) (l : ConnectionId) : World :=
  match w.links.get? l, w.running? n with
  | some link, some _ =>
    if w.answersBadly n link then w.spawn (.pingBadly n l)
    else match w.nodes.get? (link.opposite n) with
      | some other => w.onEndpoint n fun node => node.endpoint.ping other.peerId l (some roundTrip)
      | none => w
  | _, _ => w

/-- A ping has failed. The first failure in a row is passed over; the next ping follows after the
node's interval. -/
def pingFailed (w : World) (n : NodeId) (l : ConnectionId) : World :=
  match w.links.get? l, w.running? n with
  | some link, some node =>
    let w := match (link.endAt n).faltering, w.nodes.get? (link.opposite n) with
      | true, some other => w.onEndpoint n fun node => node.endpoint.ping other.peerId l none
      | _, _ => w.mapLink l (·.mapEnd n ({ · with faltering := true }))
    w.schedule node.network.pingInterval (.ping n l)
  | _, _ => w

end World

end SealedCustody
