import SealedCustody.Connection.Table

/-!
# The links of a node

What lies below the connection tables: dials that are in flight and links that are open. A dial to a
peer is refused while a link to it is open or a dial to it is in flight. Breaking a dial off and closing
a link take effect only later, when the network reports it; until then the dial is in flight and the
link is open.
-/

namespace SealedCustody

/-- A dial in flight. -/
structure FlyingDial where
  peer : Option PeerId
  addresses : List Address
  /-- It is being broken off. -/
  aborting : Bool
deriving DecidableEq, Repr, Inhabited

/-- An open link. -/
structure OpenLink where
  peer : PeerId
  closing : Bool
deriving DecidableEq, Repr, Inhabited

/-- The dials and links of a node. -/
structure Links where
  dialing : Table ConnectionId FlyingDial
  opened : Table ConnectionId OpenLink
  /-- The addresses that each peer last said it listens on. -/
  learned : Table PeerId (List Address)
deriving Inhabited

namespace Links

/-- No dials and no links. -/
def empty : Links := ⟨∅, ∅, ∅⟩

/-- Whether a link to a peer is open. -/
def isConnected (l : Links) (p : PeerId) : Bool := l.opened.values.any (·.peer = p)

/-- Whether a dial to a peer is in flight. -/
def isDialing (l : Links) (p : PeerId) : Bool := l.dialing.values.any (·.peer = some p)

/-- The open link to a peer that streams run on: the first that is not being closed. -/
def linkTo? (l : Links) (p : PeerId) : Option ConnectionId :=
  (l.opened.entries.find? fun e => e.2.peer = p && !e.2.closing).map Prod.fst

/-- What a dial that is to begin meets with. A node's own addresses are not dialed. -/
def verdict (l : Links) (own : List Address) (fresh : ConnectionId) (peer : Option PeerId)
    (addresses : List Address) : Connections.Verdict :=
  if peer.any fun p => l.isConnected p || l.isDialing p then .busy
  else if (addresses.filter fun a => !own.contains a).isEmpty then .rejected .noAddresses
  else .begun fresh

/-- Notes a dial that has begun. -/
def begin (l : Links) (own : List Address) (id : ConnectionId) (peer : Option PeerId)
    (addresses : List Address) : Links :=
  { l with dialing := l.dialing.insert id ⟨peer, addresses.filter fun a => !own.contains a, false⟩ }

/-- Notes a link that was opened to a peer, who may have said where it listens. -/
def opening (l : Links) (id : ConnectionId) (p : PeerId) (listening : Option (List Address)) : Links :=
  { l with
    dialing := l.dialing.erase id
    opened := l.opened.insert id ⟨p, false⟩
    learned := match listening with
      | some addresses => l.learned.insert p addresses
      | none => l.learned }

/-- Notes that a dial has ended. -/
def ended (l : Links) (id : ConnectionId) : Links := { l with dialing := l.dialing.erase id }

/-- Notes that a link is gone. -/
def gone (l : Links) (id : ConnectionId) : Links := { l with opened := l.opened.erase id }

/-- Notes that a link is being closed. -/
def closing (l : Links) (id : ConnectionId) : Links :=
  match l.opened.get? id with
  | some o => { l with opened := l.opened.insert id { o with closing := true } }
  | none => l

/-- Notes that the dials to a peer are being broken off. -/
def aborting (l : Links) (p : PeerId) : Links :=
  { l with dialing := l.dialing.mapValues fun d => { d with aborting := d.aborting || d.peer = some p } }

/-- The open links to a peer that are not being closed. -/
def linksTo (l : Links) (p : PeerId) : List ConnectionId :=
  (l.opened.entries.filter fun e => e.2.peer = p && !e.2.closing).map Prod.fst

/-- The dials to a peer that are not being broken off. -/
def dialsTo (l : Links) (p : PeerId) : List ConnectionId :=
  (l.dialing.entries.filter fun e => e.2.peer = some p && !e.2.aborting).map Prod.fst

end Links

/-! ## Tables and links together -/

/-- The connections of a node: its tables, the links below them, and the callers that have stopped
waiting. -/
structure Endpoint where
  connections : Connections
  links : Links
  gone : List CallerId
deriving Inhabited

namespace Endpoint

/-- What a step of the endpoint has the rest of the world do. -/
inductive Effect where
  | answer (caller : CallerId) (result : Except Error Connection)
  | emit (event : Event)
  /-- Reach for the addresses of a dial. -/
  | reach (dial : ConnectionId)
  /-- Break off a dial. -/
  | abort (dial : ConnectionId)
  /-- Take down a link. -/
  | hangUp (link : ConnectionId)

/-- The endpoint of a node without connections. -/
def empty (self : PeerId) : Endpoint := ⟨.empty self, .empty, []⟩

/-- Carries out what the tables ask of the links. -/
def carryOut (e : Endpoint) : List Connections.Effect → Endpoint × List Effect
  | [] => (e, [])
  | effect :: rest =>
    let (e, now) : Endpoint × List Effect := match effect with
      | .answer caller r => (e, [.answer caller r])
      | .emit event => (e, [.emit event])
      | .close id =>
        if (e.links.opened.get? id).any (!·.closing) then
          ({ e with links := e.links.closing id }, [.hangUp id])
        else (e, [])
      | .disconnect p =>
        let open_ := e.links.linksTo p
        let dials := e.links.dialsTo p
        ({ e with links := open_.foldl Links.closing (e.links.aborting p) },
          open_.map .hangUp ++ dials.map .abort)
    let (e, later) := carryOut e rest
    (e, now ++ later)

/-- Takes a step of the tables. -/
def take (e : Endpoint) (step : Connections × List Connections.Effect) : Endpoint × List Effect :=
  carryOut { e with connections := step.1 } step.2

/-- A caller wants a connection to an address, or to a peer there. -/
def dial (e : Endpoint) (own : List Address) (fresh : ConnectionId) (peer : Option PeerId)
    (a : Address) (caller : CallerId) : Endpoint × List Effect :=
  let v := e.links.verdict own fresh peer [a]
  match e.connections.enlist peer a caller, v with
  | .vacant, .begun id =>
    let (e, effects) := { e with links := e.links.begin own id peer [a] }.take
      (e.connections.begin peer a caller v)
    (e, .reach id :: effects)
  | _, _ => e.take (e.connections.dial peer a caller v)

/-- A stream needs a connection to a peer and there is none: the addresses it said it listens on are
dialed, unless a dial to it is under way. Whether a connection may come. -/
def dialLearned (e : Endpoint) (own : List Address) (fresh : ConnectionId) (p : PeerId) :
    Bool × Endpoint × List Effect :=
  let addresses := (e.links.learned.get? p).getD []
  match e.links.verdict own fresh (some p) addresses with
  | .begun id => (true, { e with links := e.links.begin own id (some p) addresses }, [.reach id])
  | .busy => (true, e, [])
  | .rejected _ => (false, e, [])

/-- A caller stops waiting, and dials that nobody waits for are given up. -/
def leave (e : Endpoint) (caller : CallerId) : Endpoint × List Effect :=
  let e := { e with gone := caller :: e.gone }
  e.take (e.connections.prune e.gone.contains)

/-- Closes a connection; whether there was one. -/
def close (e : Endpoint) (id : ConnectionId) : Bool × Endpoint × List Effect :=
  (e.links.opened.contains id, e.take (e.connections.close id))

/-- A link to a peer, who may have said where it listens, was opened. -/
def established (e : Endpoint) (p : PeerId) (l : LiveConnection) (listening : Option (List Address)) :
    Endpoint × List Effect :=
  { e with links := e.links.opening l.id p listening }.take (e.connections.established p l)

/-- A link is gone. -/
def closed (e : Endpoint) (p : PeerId) (id : ConnectionId) : Endpoint × List Effect :=
  { e with links := e.links.gone id }.take (e.connections.closed p id)

/-- A dial has ended without a link. -/
def dialFailed (e : Endpoint) (id : ConnectionId) (f : DialFault) : Endpoint × List Effect :=
  let peer := (e.links.dialing.get? id).bind (·.peer)
  { e with links := e.links.ended id }.take (e.connections.dialFailed id peer f)

/-- A ping was answered or failed. -/
def ping (e : Endpoint) (p : PeerId) (id : ConnectionId) (rtt : Option Span) :
    Endpoint × List Effect :=
  e.take (e.connections.ping p id rtt)

/-- The node stops. -/
def stop (e : Endpoint) : Endpoint × List Effect := e.take e.connections.stop

end Endpoint

end SealedCustody
