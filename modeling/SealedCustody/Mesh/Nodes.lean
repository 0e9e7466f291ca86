import SealedCustody.Mesh.Negotiation
import SealedCustody.Mesh.Run

/-!
# Nodes that come and go

Starting a node on the machine, stopping it, running it until it is interrupted, and the interface of
the machine going down and up under the nodes that listen on all addresses.
-/

namespace SealedCustody

namespace World

/-! ## Starting -/

/-- The addresses that a node has through the interface, when it is up. -/
def interfaceAddresses (node : Node) : List Address :=
  node.listeners.filterMap Machine.interfaceAddress?

/-- Puts a node on the machine. Its address on the interface follows as soon as it runs. -/
def enter (w : World) (node : Node) : NodeId × World :=
  let (id, w) := w.draw
  let w := { w with nodes := w.nodes.insert id node }
  (id, (interfaceAddresses node).foldl (fun w a => w.schedule 0 (.appear id a)) w)

/-- Takes the outcome of a start in. -/
def enlist (w : World) : Node.Start → Except Error NodeId × World
  | .started node machine =>
    let (id, w) := { w with machine }.enter node
    (.ok id, w)
  | .failed e left machine =>
    let w := { w with machine }
    (.error e, match left with
      | some node => (w.enter node).2
      | none => w)

/-- Starts a node that has only the handlers it is given. -/
def startBare (w : World) (network : NetworkConfig) (identity : Identity) (builtins : Bool)
    (handlers : List (String × Handler)) : Except Error NodeId × World :=
  w.enlist (Node.startBare w.machine network identity builtins handlers)

/-- Builds and starts a custody node. -/
def startCustody (w : World) (cwd : Location) (p : Node.Plan) : Except Error NodeId × World :=
  let (start, disk) := Node.build w.machine w.disk cwd p
  { w with disk }.enlist start

/-! ## Stopping -/

/-- Tells a node to stop. -/
def announceStop (node : Node) : Node :=
  match node.office with
  | some o => { node with office := some { o with stopping := true } }.emit .shuttingDown
  | none => node

/-- Stops a node. -/
def stop (w : World) (n : NodeId) : World := (w.mapNode n announceStop).stopTransport n

/-- Lets go of a node without stopping it. One with nothing but connections and handlers stops by
itself, unless a handler of its own holds it. -/
def forsake (w : World) (n : NodeId) : World :=
  match w.nodes.get? n with
  | none => w
  | some node => if node.office.isSome || node.holdsItself then w else w.stopTransport n

/-! ## Staying connected -/

/-- Sets the tasks running that keep a node connected to its bootstrap addresses. -/
def startBootstrap (w : World) (n : NodeId) : World :=
  match w.nodes.get? n with
  | none => w
  | some node => ((node.office.map (·.bootstrap)).getD []).foldl (fun w a => w.keep n node a) w

/-- The milliseconds after which nobody waits any longer for a bootstrap connection. -/
def bootstrapPatience : Nat := 10000

/-- Waits until a node is connected to a peer, and the peer to it. -/
def awaitPeer (w : World) (n : NodeId) (p : PeerId) : World :=
  (w.perform (Program.query (.meet n p bootstrapPatience))).2.settle

/-! ## Running -/

/-- Announces that a node runs, and where. -/
def announceRun (node : Node) : Node :=
  node.dialable.foldl (fun node a => node.emit (.listeningOn a.text)) (node.emit .started)

/-- Hands out the first receiver of a node's events, which can be done once; whether it was there. -/
def takeReceiver (w : World) (n : NodeId) : Bool × World :=
  ((w.nodes.get? n).any fun node => node.office.any (!·.receiverTaken),
    w.mapNode n fun node =>
      { node with office := node.office.map ({ · with receiverTaken := true }) })

/-- Runs a node until it is told to stop, which it is at the start unless it is interrupted after some
time. -/
def run (w : World) (n : NodeId) (interrupt : Option Nat) : World :=
  let stopping := (w.nodes.get? n).any fun node => node.office.any (·.stopping)
  let w := w.mapNode n announceRun
  match interrupt with
  | none => w.stop n
  | some millis =>
    let w := w.startBootstrap n
    if stopping then w.stop n
    else ((w.perform (Program.query (.sleep millis))).2).stop n

/-! ## The interface -/

/-- A node loses its addresses on the interface. -/
def loseInterface (node : Node) : Node :=
  { node with listening := node.listening.filter fun a => !(interfaceAddresses node).contains a }

/-- Takes the interface up or down, unless it is so already. -/
def setInterface (w : World) (up : Bool) : World :=
  if w.machine.isUp = up then w
  else
    let w := { w with machine := { w.machine with isUp := up } }
    w.nodes.entries.foldl (fun w e =>
      if up then (interfaceAddresses e.2).foldl (fun w a => w.appear e.1 a) w
      else w.mapNode e.1 loseInterface) w

/-! ## Sockets that are no nodes -/

/-- Something that is no node begins to answer at a socket of its own, of which the port is given. -/
def addStranger (w : World) (s : Stranger) : UInt16 × World :=
  let (port, machine) := w.machine.drawPort
  (port, { w with
    machine
    strangers := w.strangers ++ [(⟨.loopback4, port⟩, s)] })

/-- How a conversation ends that something other than a node begins. -/
inductive Conversation where
  | refused
  /-- The one who began it has hung up. -/
  | hungUp
  /-- The other has hung up. -/
  | closed
  /-- Nobody has hung up. -/
  | unfinished
deriving DecidableEq, Repr

/-- The end of a conversation in words. -/
def Conversation.text : Conversation → String
  | refused => "refused"
  | hungUp => "hung up"
  | closed => "closed"
  | unfinished => "open"

/-- How long one who is no node waits for the other to hang up. -/
def strangerPatience : Nat := 60000

/-- Something that is no node sends some octets to an address. A node hangs up on it at once if it
refuses them, and otherwise when the link has not been set up in time. -/
def converse (w : World) (a : Address) (payload : List UInt8) (hangsUp : Bool) : Conversation × World :=
  let after (millis : Nat) := (w.perform (Program.query (.sleep millis))).2
  match w.contact a with
  | .nobody => (.refused, w)
  | found =>
    if hangsUp then (.hungUp, w)
    else match found with
      | .node _ => (.closed, if Negotiation.refuses payload then w else after setUpLimit)
      | .stranger .slams | .nobody => (.closed, w)
      | .stranger _ => (.unfinished, after strangerPatience)

end World

end SealedCustody
