import SealedCustody.Bootstrap
import SealedCustody.Mesh.Job
import SealedCustody.Node
import SealedCustody.Stream.Framing

/-!
# The mesh

Nodes on one machine, the links between them, the streams on those links and the programs that run at
the nodes. Time is counted in milliseconds and moves on only when nothing is left to do at an instant.
What is to happen at some time stands in a queue.

A node and the rest of the mesh meet at the node's endpoint: `World.onEndpoint` takes one step of an
endpoint and carries out what it asks for.
-/

namespace SealedCustody

/-- What answers at a socket where no node listens. -/
inductive Stranger where
  /-- It never says anything. -/
  | silent
  /-- It speaks another language. -/
  | foreign
  /-- It hangs up. -/
  | slams
deriving DecidableEq, Repr, Inhabited

/-! ## Links -/

/-- One end of a link. -/
structure LinkEnd where
  node : NodeId
  /-- When a stream last came or went at this end. -/
  since : Nat
  /-- Whether the last ping from this end failed. -/
  faltering : Bool
deriving DecidableEq, Repr, Inhabited

/-- A link between two nodes. -/
structure Link where
  dialer : LinkEnd
  listener : LinkEnd
deriving DecidableEq, Repr, Inhabited

namespace Link

/-- The ends of a link. -/
def ends (l : Link) : List LinkEnd := [l.dialer, l.listener]

/-- The end at a node. -/
def endAt (l : Link) (n : NodeId) : LinkEnd := if l.dialer.node = n then l.dialer else l.listener

/-- The node at the other end. -/
def opposite (l : Link) (n : NodeId) : NodeId :=
  if l.dialer.node = n then l.listener.node else l.dialer.node

/-- Changes the end at a node. -/
def mapEnd (l : Link) (n : NodeId) (f : LinkEnd → LinkEnd) : Link :=
  if l.dialer.node = n then { l with dialer := f l.dialer } else { l with listener := f l.listener }

/-- A stream comes or goes at both ends. -/
def touch (l : Link) (now : Nat) : Link :=
  ⟨{ l.dialer with since := now }, { l.listener with since := now }⟩

end Link

/-! ## Streams -/

/-- What one side of a stream has. -/
structure StreamSide where
  node : NodeId
  writer : StreamWriter
  /-- Fired when the connection under the stream goes. -/
  signal : SignalId
  /-- What has arrived and was not read. -/
  inbox : List UInt8
  /-- Whether nothing more will arrive. -/
  ended : Bool
  /-- Whether this side has not let go of the stream. -/
  held : Bool
  /-- Whether the stream keeps the link from being idle at this end. -/
  counts : Bool
deriving DecidableEq, Repr, Inhabited

/-- A stream on a link. -/
structure LiveStream where
  link : ConnectionId
  protocol : ProtocolId
  opener : StreamSide
  acceptor : StreamSide
deriving DecidableEq, Repr, Inhabited

namespace LiveStream

/-- One side of a stream. -/
def side (s : LiveStream) (opener : Bool) : StreamSide := if opener then s.opener else s.acceptor

/-- Changes one side of a stream. -/
def mapSide (s : LiveStream) (opener : Bool) (f : StreamSide → StreamSide) : LiveStream :=
  if opener then { s with opener := f s.opener } else { s with acceptor := f s.acceptor }

/-- Whether a stream keeps a link from being idle at the end at a node. -/
def keeps (s : LiveStream) (link : ConnectionId) (n : NodeId) : Bool :=
  s.link = link && [s.opener, s.acceptor].any fun side => side.node = n && side.held && side.counts

end LiveStream

/-- The name of an attempt to open a stream. -/
abbrev OpeningId := Nat

/-- An attempt to open a stream. -/
structure Opening where
  node : NodeId
  peer : PeerId
  protocol : ProtocolId
  signal : SignalId
  /-- Whether it waits for a connection to the peer. -/
  waiting : Bool
  outcome : Option (Except Error StreamEnd)

/-! ## The world -/

/-- What is to happen at some time. -/
inductive Happening where
  /-- A dial reaches for its addresses. -/
  | reach (node : NodeId) (dial : ConnectionId)
  /-- A link comes up at the end that listens. -/
  | welcome (link : ConnectionId) (caller : Address)
  /-- A dial has taken too long. -/
  | tooLate (node : NodeId) (dial : ConnectionId)
  /-- A dial that was broken off in some step ends. -/
  | brokenOff (node : NodeId) (dial : ConnectionId) (step : Nat)
  /-- A link goes down. -/
  | down (link : ConnectionId)
  /-- The ends of a link settle what a stream is for. -/
  | negotiate (opening : OpeningId)
  /-- A node pings over a link. -/
  | ping (node : NodeId) (link : ConnectionId)
  /-- A node gets an address from the interface. -/
  | appear (node : NodeId) (address : Address)
  /-- The connections and listeners of a node stop. -/
  | stop (node : NodeId)
deriving DecidableEq, Repr

/-- A task that keeps a node connected to a bootstrap address. -/
structure Keeper where
  node : NodeId
  address : Address
  state : Bootstrap
  /-- What the task is doing, unless it watches or has ended. -/
  work : Option (Job Bootstrap.Input)

/-- The nodes of a machine and all that goes on between them. -/
structure World where
  now : Nat
  /-- The number of the step that is being taken. -/
  step : Nat
  /-- The number of nodes that are watched: their links are compared at the end of a step. -/
  watched : Nat
  /-- The next fresh name. -/
  fresh : Nat
  machine : Machine
  disk : Disk
  strangers : List (Socket × Stranger)
  nodes : Table NodeId Node
  links : Table ConnectionId Link
  streams : Table StreamId LiveStream
  openings : Table OpeningId Opening
  /-- Answers that callers have not fetched. -/
  answers : Table CallerId (Except Error Connection)
  /-- What is to happen, in the order of time. -/
  queue : List (Nat × Happening)
  /-- What runs at the nodes of its own accord. -/
  tasks : List (Job Unit)
  keepers : List Keeper

namespace World

/-- A machine without nodes. -/
def start (isUp : Bool) (d : Disk) : World :=
  ⟨0, 0, 0, 0, .start isUp, d, [], ∅, ∅, ∅, ∅, ∅, [], [], []⟩

/-- Watches one node more. -/
def watch (w : World) : World := { w with watched := w.watched + 1 }

/-- Keeps free ports clear of those that a text gives. -/
def clearOf (w : World) (text : String) : World :=
  { w with machine := w.machine.clearOf text }

/-- A fresh name. -/
def draw (w : World) : Nat × World := (w.fresh, { w with fresh := w.fresh + 1 })

/-- The key whose octets are the digits of a number. -/
def numberedKey (n : Nat) : EnvelopeKey :=
  ⟨(List.range EnvelopeKey.size).map fun i => (n >>> (8 * i)).toUInt8, by simp⟩

/-- A key that is used once. -/
def drawKey (w : World) : EnvelopeKey × World :=
  let (n, w) := w.draw
  (numberedKey n, w)

/-- A nonce. It is used with a key that is used once. -/
def nonce : List UInt8 := List.replicate Envelope.nonceSize 0

/-- A node that is running. -/
def running? (w : World) (n : NodeId) : Option Node := (w.nodes.get? n).filter (·.running)

/-- Changes a node. -/
def mapNode (w : World) (n : NodeId) (f : Node → Node) : World :=
  match w.nodes.get? n with
  | some node => { w with nodes := w.nodes.insert n (f node) }
  | none => w

/-- Changes a link. -/
def mapLink (w : World) (l : ConnectionId) (f : Link → Link) : World :=
  match w.links.get? l with
  | some link => { w with links := w.links.insert l (f link) }
  | none => w

/-- Changes a stream. -/
def mapStream (w : World) (s : StreamId) (f : LiveStream → LiveStream) : World :=
  match w.streams.get? s with
  | some stream => { w with streams := w.streams.insert s (f stream) }
  | none => w

/-- Puts a happening behind all that happen no later. -/
def enqueue (time : Nat) (h : Happening) : List (Nat × Happening) → List (Nat × Happening)
  | [] => [(time, h)]
  | e :: rest => if time < e.1 then (time, h) :: e :: rest else e :: enqueue time h rest

/-- Lets something happen after some time. -/
def schedule (w : World) (delay : Nat) (h : Happening) : World :=
  { w with queue := enqueue (w.now + delay) h w.queue }

/-- Sets a program running. -/
def spawn (w : World) (p : Program Unit) : World := { w with tasks := w.tasks ++ [.ready p] }

/-! ## Endpoints -/

/-- Carries out one thing that the endpoint of a node asks for. -/
def carryOut (n : NodeId) (w : World) : Endpoint.Effect → World
  | .answer caller r => { w with answers := w.answers.insert caller r }
  | .emit e => w.mapNode n (·.emit e)
  | .reach dial => w.schedule 0 (.reach n dial)
  | .abort dial => w.schedule 0 (.brokenOff n dial w.step)
  | .hangUp link => w.schedule 0 (.down link)

/-- Takes a step of the endpoint of a node. -/
def onEndpoint (w : World) (n : NodeId) (f : Node → Endpoint × List Endpoint.Effect) : World :=
  match w.nodes.get? n with
  | none => w
  | some node =>
    let (e, effects) := f node
    effects.foldl (carryOut n) (w.mapNode n ({ · with endpoint := e }))

end World

end SealedCustody
