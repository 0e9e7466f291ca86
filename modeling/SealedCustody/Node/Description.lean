import SealedCustody.Metrics.Description
import SealedCustody.Node

/-!
# Nodes in JSON

What a node shows of itself.
-/

namespace SealedCustody

/-- The metrics of a node that is running. -/
def Node.metrics (n : Node) : Except Error NetworkMetrics :=
  if n.running then .ok ⟨n.peerId, n.endpoint.connections.metrics⟩ else .error .shutdown

/-- What a node shows of itself, apart from its connections. -/
def Node.facts (n : Node) : List (String × Json.Value) :=
  [("running", .bool n.running), ("listening", .ofNat n.listening.length),
    ("dialable", .ofTexts (n.dialable.map (·.text))),
    ("limit", .ofNat n.network.maxMessageBytes),
    ("identity", if n.office.isSome then .bool true else .null)]

end SealedCustody
