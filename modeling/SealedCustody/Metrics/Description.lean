import SealedCustody.Json.Access
import SealedCustody.Metrics
import SealedCustody.Peers

/-!
# Metrics in JSON

What is told of the connections of a node, and how a connected peer is described.
-/

namespace SealedCustody

/-- A span of time in JSON: seconds and nanoseconds. -/
def Span.description (s : Span) : Json.Value := .array [.ofNat s.seconds, .ofNat s.nanos]

/-- A summary of round-trip times in JSON. -/
def LatencyStats.description (s : LatencyStats) : Json.Value :=
  .ofMembers [("avg", s.avg.description), ("min", s.min.description), ("max", s.max.description)]

/-- A connected peer in JSON. -/
def PeerMetrics.description (p : PeerMetrics) : Json.Value :=
  .ofMembers [("address", .string p.address.text), ("direction", .string p.direction.name),
    ("failures", .ofNat p.pingFailures)]

/-- The connections of a node in JSON. -/
def NetworkMetrics.description (m : NetworkMetrics) : Json.Value :=
  .ofMembers [("local", .string m.localPeer.text), ("inbound", .ofNat (m.count .inbound)),
    ("outbound", .ofNat (m.count .outbound)),
    ("peers", .array (m.peers.map fun p =>
      .array [.string p.peer.text, .string p.direction.name, .ofNat p.pingFailures]))]

/-- How the peers of a node answer pings, in JSON. -/
def NetworkMetrics.health (m : NetworkMetrics) : Json.Value :=
  .array (m.peers.map fun p =>
    .array [.string p.peer.text, .bool p.latency.isSome, .ofNat p.pingFailures])

/-- The low 32 bits of a number in JSON. -/
def Json.Value.low32? (v : Json.Value) : Option Nat := v.natural?.map (· % UInt32.size)

/-- The span that seconds and nanoseconds in JSON give. -/
def Span.ofDescription? (v : Json.Value) : Option Span := do
  match ← v.items? with
  | [seconds, nanos] => some (.ofParts (← seconds.natural?) (← nanos.low32?))
  | _ => none

/-- The connected peer that is described. -/
def PeerMetrics.ofDescription? (v : Json.Value) : Option PeerMetrics := do
  let address ← Address.ofText (← v.textAt? "addr") |>.toOption
  let direction ← [Direction.inbound, .outbound].find? fun d => v.textAt? "direction" = some d.name
  some ⟨← (v.textAt? "peer").bind PeerId.ofText?, address, direction,
    (v.get? "latency").bind Span.ofDescription?, ← (← v.get? "failures").low32?⟩

/-- The metrics that are described. -/
def NetworkMetrics.ofDescription? (v : Json.Value) : Option NetworkMetrics := do
  some ⟨← (v.textAt? "local").bind PeerId.ofText?,
    ← (← v.itemsAt? "peers").mapM PeerMetrics.ofDescription?⟩

end SealedCustody
