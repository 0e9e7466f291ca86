import SealedCustody.Connection
import SealedCustody.Connection.Closures
import SealedCustody.Event
import SealedCustody.Metrics

/-!
# The connection tables of a node

A node keeps the connections it has to each peer, the dials that callers wait for, and the dials that
nobody waits for any more. The first connection to a peer is the one that streams are opened on; any
other is redundant and is being closed. A dial is awaited either under the peer it is to or, for a bare
address, under its own name.

Every function here is one step: what it has to tell others it returns as a list of effects.
-/

namespace SealedCustody

/-- A dial that callers wait for. -/
structure PendingDial where
  /-- The address that an error names. -/
  target : Address
  /-- The dial, unless it was under way already for another purpose. -/
  dial : Option ConnectionId
  callers : List CallerId
deriving DecidableEq, Repr, Inhabited

/-- What is known of how a peer answers. -/
structure Health where
  latency : Option Span
  failures : Nat
deriving DecidableEq, Repr, Inhabited

/-- The tables. -/
structure Connections where
  self : PeerId
  live : Table PeerId (List LiveConnection)
  /-- Dials to a peer. -/
  pendingPeers : Table PeerId PendingDial
  /-- Dials to a bare address. -/
  pendingDials : Table ConnectionId PendingDial
  /-- The dial to each bare address. -/
  pendingAddresses : Table Address ConnectionId
  /-- Dials that were given up and have not ended. -/
  aborted : List ConnectionId
  closures : Closures
  health : Table PeerId Health
deriving Inhabited

namespace Connections

/-- What a step tells others. -/
inductive Effect where
  | answer (caller : CallerId) (result : Except Error Connection)
  | emit (event : Event)
  /-- Close a connection. -/
  | close (id : ConnectionId)
  /-- Close what there is to a peer and give up dialing it. -/
  | disconnect (peer : PeerId)

/-- The tables of a node without connections. -/
def empty (self : PeerId) : Connections := ⟨self, ∅, ∅, ∅, ∅, [], .empty, ∅⟩

/-! ## Looking up -/

/-- The connections to a peer. -/
def toPeer (c : Connections) (p : PeerId) : List LiveConnection := (c.live.get? p).getD []

/-- The connection that streams to a peer are opened on. -/
def primary? (c : Connections) (p : PeerId) : Option Connection :=
  (c.toPeer p).head?.map fun l => ⟨p, l.id, l.remote⟩

/-- The number of connections to a peer. -/
def count (c : Connections) (p : PeerId) : Nat := (c.toPeer p).length

/-- The connection that streams are opened on, for each peer. -/
def primaries (c : Connections) : List Connection := c.live.keys.filterMap c.primary?

/-- The peer that a connection is the first of. -/
def primaryOf? (c : Connections) (id : ConnectionId) : Option PeerId :=
  (c.live.entries.find? fun e => e.2.head?.any (·.id = id)).map Prod.fst

/-- The peer that was dialed at a bare address. -/
def dialedAt? (c : Connections) (a : Address) : Option PeerId :=
  (c.live.entries.find? fun e => e.2.any fun l => l.dialer = c.self && l.remote = a).map Prod.fst

/-- The connected peers in the order of their ids, with what is known of them. -/
def metrics (c : Connections) : List PeerMetrics :=
  let entries := c.live.entries.filterMap fun e => e.2.head?.map fun l =>
    let h := (c.health.get? e.1).getD ⟨none, 0⟩
    (⟨e.1, l.remote, if l.dialer = c.self then .outbound else .inbound, h.latency, h.failures⟩ :
      PeerMetrics)
  entries.mergeSort fun a b => !b.peer.before a.peer

/-! ## Dialing -/

/-- What the network says to a dial that is to begin. -/
inductive Verdict where
  | begun (id : ConnectionId)
  /-- The peer is being dialed already, or a connection to it has not quite gone. -/
  | busy
  | rejected (fault : DialFault)
deriving DecidableEq, Repr

/-- What is done about a caller that wants a connection. -/
inductive Admission where
  | answered (result : Except Error Connection)
  /-- The caller waits for a dial that is under way. -/
  | joined (tables : Connections)
  /-- A dial has to begin. -/
  | vacant

/-- The address that an error names: with the peer, if one was dialed. -/
def targetOf (peer : Option PeerId) (a : Address) : Address :=
  match peer with
  | some p => a.withPeer p
  | none => a

/-- Adds a caller to a dial. -/
def PendingDial.join (d : PendingDial) (caller : CallerId) : PendingDial :=
  { d with callers := d.callers ++ [caller] }

/-- Looks for a connection to a peer, or a dial to it. -/
def admitPeer (c : Connections) (p : PeerId) (a : Address) (caller : CallerId) : Admission :=
  if p = c.self then
    .answered (.error (.dial (a.withPeer p).text "refusing to dial the local peer"))
  else match c.primary? p with
    | some found => .answered (.ok found)
    | none =>
      match c.pendingPeers.get? p with
      | some d =>
        .joined { c with pendingPeers := c.pendingPeers.insert p (PendingDial.join d caller) }
      | none => .vacant

/-- Looks for a connection that was dialed at a bare address, or a dial to it. -/
def admitBare (c : Connections) (a : Address) (caller : CallerId) : Admission :=
  match (c.dialedAt? a).bind c.primary? with
  | some found => .answered (.ok found)
  | none =>
    match c.pendingAddresses.get? a with
    | none => .vacant
    | some id =>
      match c.pendingDials.get? id with
      | some d =>
        .joined { c with pendingDials := c.pendingDials.insert id (PendingDial.join d caller) }
      | none => .vacant

/-- Looks for a connection that will do, or a dial to join. -/
def enlist (c : Connections) (peer : Option PeerId) (a : Address) (caller : CallerId) : Admission :=
  match peer with
  | some p => c.admitPeer p a caller
  | none => c.admitBare a caller

/-- Notes what the network said to the dial that a caller waits for. -/
def begin (c : Connections) (peer : Option PeerId) (a : Address) (caller : CallerId) :
    Verdict → Connections × List Effect
  | .rejected f => (c, [.answer caller (.error (f.error (targetOf peer a).text))])
  | .busy =>
    match peer with
    | some p =>
      ({ c with pendingPeers := c.pendingPeers.insert p ⟨targetOf peer a, none, [caller]⟩ }, [])
    | none => (c, [.answer caller (.error (DialFault.noAddresses.error a.text))])
  | .begun id =>
    match peer with
    | some p =>
      ({ c with pendingPeers := c.pendingPeers.insert p ⟨targetOf peer a, some id, [caller]⟩ }, [])
    | none =>
      ({ c with
          pendingAddresses := c.pendingAddresses.insert a id
          pendingDials := c.pendingDials.insert id ⟨a, some id, [caller]⟩ }, [])

/-- A caller wants a connection. The verdict of the network counts only where a dial has to begin. -/
def dial (c : Connections) (peer : Option PeerId) (a : Address) (caller : CallerId) (v : Verdict) :
    Connections × List Effect :=
  match c.enlist peer a caller with
  | .answered r => (c, [.answer caller r])
  | .joined c => (c, [])
  | .vacant => c.begin peer a caller v

/-! ## Giving dials up -/

/-- The entries of a table of dials whose callers are not all gone, without those that are. -/
def stillAwaited {κ : Type} [DecidableEq κ] (t : Table κ PendingDial) (gone : CallerId → Bool) :
    Table κ PendingDial :=
  let trimmed := t.mapValues fun d => { d with callers := d.callers.filter fun w => !gone w }
  trimmed.filterValues fun d => !d.callers.isEmpty

/-- The entries of a table of dials whose callers are all gone. -/
def unawaited {κ : Type} [DecidableEq κ] (t : Table κ PendingDial) (gone : CallerId → Bool) :
    List (κ × PendingDial) :=
  t.entries.filter fun e => e.2.callers.all gone

/-- Gives up the dials whose callers are all gone. One to a peer is broken off; one to a bare address
goes on, and what comes of it is closed. -/
def prune (c : Connections) (gone : CallerId → Bool) : Connections × List Effect :=
  let peers := unawaited c.pendingPeers gone
  let dials := unawaited c.pendingDials gone
  ({ c with
      pendingPeers := stillAwaited c.pendingPeers gone
      pendingDials := stillAwaited c.pendingDials gone
      pendingAddresses := c.pendingAddresses.filterValues fun id => !(dials.any (·.1 = id))
      aborted := peers.filterMap (·.2.dial) ++ dials.map (·.1) ++ c.aborted },
    peers.map fun e => .disconnect e.1)

/-! ## Connections that come and go -/

/-- Begins to close a connection. The streams on a first connection are told at once. -/
def close (c : Connections) (id : ConnectionId) : Connections × List Effect :=
  let c := match c.primaryOf? id with
    | some p => { c with closures := c.closures.fire p }
    | none => c
  (c, [.close id])

/-- Whether a new connection to a peer takes the place of the first one: it does if it alone was
dialed by the smaller peer id. -/
def replaces (c : Connections) (p : PeerId) (existing new : LiveConnection) : Bool :=
  let preferred := if c.self.before p then c.self else p
  new.dialer = preferred && existing.dialer ≠ preferred

/-- Enters a connection; one of two to a peer is closed. -/
def enter (c : Connections) (p : PeerId) (l : LiveConnection) : Connections × List Effect :=
  match c.toPeer p with
  | [] =>
    ({ c with health := c.health.erase p, live := c.live.insert p [l] }, [.emit (.peerConnected p)])
  | existing :: rest =>
    if c.replaces p existing l then
      ({ c with live := c.live.insert p (l :: existing :: rest) }, [.close existing.id])
    else ({ c with live := c.live.insert p (existing :: rest ++ [l]) }, [.close l.id])

/-- Answers everyone who waits for a dial with one result. -/
def answerAll (d : Option PendingDial) (r : Except Error Connection) : List Effect :=
  match d with
  | some d => d.callers.map fun w => .answer w r
  | none => []

/-- Takes out a dial to a bare address. -/
def forgetDial (c : Connections) (id : ConnectionId) : Connections :=
  match c.pendingDials.get? id with
  | some _ => { c with
      pendingDials := c.pendingDials.erase id
      pendingAddresses := c.pendingAddresses.filterValues (· ≠ id) }
  | none => c

/-- A connection was established. One from a dial that was given up is closed; otherwise it is
entered, and those who wait for the peer or for the dial get the first connection to the peer. -/
def established (c : Connections) (p : PeerId) (l : LiveConnection) : Connections × List Effect :=
  if c.aborted.contains l.id then
    ({ c with aborted := c.aborted.filter (· ≠ l.id) }, [.close l.id])
  else
    let (c, effects) := c.enter p l
    match c.primary? p with
    | none => (c, effects)
    | some found =>
      let answers := answerAll (c.pendingPeers.get? p) (.ok found)
        ++ answerAll (c.pendingDials.get? l.id) (.ok found)
      (forgetDial { c with pendingPeers := c.pendingPeers.erase p } l.id, effects ++ answers)

/-- A connection was closed. The streams to the peer are told if it was the first one. -/
def closed (c : Connections) (p : PeerId) (id : ConnectionId) : Connections × List Effect :=
  match c.live.get? p with
  | none => (c, [])
  | some ls =>
    let closures := if ls.head?.any (·.id = id) then c.closures.fire p else c.closures
    let rest := ls.filter (·.id ≠ id)
    if rest.isEmpty then
      ({ c with closures, live := c.live.erase p, health := c.health.erase p },
        [.emit (.peerDisconnected p)])
    else ({ c with closures, live := c.live.insert p rest }, [])

/-- A dial failed. Those who wait for the dial are told, and those who wait for the peer if theirs is
this dial or one they found under way. -/
def dialFailed (c : Connections) (id : ConnectionId) (peer : Option PeerId) (f : DialFault) :
    Connections × List Effect :=
  let c := { c with aborted := c.aborted.filter (· ≠ id) }
  let failed (d : Option PendingDial) : List Effect :=
    answerAll d (.error (f.error ((d.map fun d => d.target.text).getD "")))
  let ofDial := failed (c.pendingDials.get? id)
  let c := c.forgetDial id
  match peer with
  | none => (c, ofDial)
  | some p =>
    match c.pendingPeers.get? p with
    | none => (c, ofDial)
    | some d =>
      if d.dial.all (· = id) && !c.live.contains p then
        ({ c with pendingPeers := c.pendingPeers.erase p }, ofDial ++ failed (some d))
      else (c, ofDial)

/-! ## Health -/

/-- Failed pings in a row after which a connection is closed. -/
def maxPingFailures : Nat := 3

/-- A ping on a connection was answered after some time, or failed. Only the first connection to a
peer counts. -/
def ping (c : Connections) (p : PeerId) (id : ConnectionId) (rtt : Option Span) :
    Connections × List Effect :=
  if c.primaryOf? id ≠ some p then (c, [])
  else
    let h := (c.health.get? p).getD ⟨none, 0⟩
    match rtt with
    | some t => ({ c with health := c.health.insert p ⟨some t, 0⟩ }, [])
    | none =>
      let failures := h.failures + 1
      let c := { c with health := c.health.insert p { h with failures } }
      if maxPingFailures ≤ failures then c.close id else (c, [])

/-! ## Stopping -/

/-- The node stops: everyone who waits is told, and so is every stream. -/
def stop (c : Connections) : Connections × List Effect :=
  let waiting := (c.pendingPeers.values ++ c.pendingDials.values).flatMap (·.callers)
  ({ c with
      pendingPeers := ∅
      pendingDials := ∅
      pendingAddresses := ∅
      closures := c.closures.fireAll },
    (waiting.map fun w => .answer w (.error (DialFault.stopping.error "*")))
      ++ c.live.keys.map .disconnect)

end Connections

end SealedCustody
