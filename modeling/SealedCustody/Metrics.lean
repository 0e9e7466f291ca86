import SealedCustody.Address

/-!
# Connection metrics

A view of a node's connections at one moment, and a summary of the round-trip times measured on them.
Spans of time are added and divided in words of 64 bits; `none` stands for a number that fits none.
-/

namespace SealedCustody

/-- Nanoseconds in a second. -/
def Span.perSecond : Nat := 1000000000

/-- A span of time: seconds, and nanoseconds below one second. -/
structure Span where
  seconds : Nat
  nanos : Nat
  nanos_lt : nanos < Span.perSecond := by decide
deriving DecidableEq, Repr

namespace Span

instance : Inhabited Span := ⟨{ seconds := 0, nanos := 0 }⟩

/-- The first number past 64 bits. -/
def limit : Nat := UInt64.size

/-- A number of 64 bits. -/
def word? (n : Nat) : Option Nat := if n < limit then some n else none

/-- The span of so many seconds and nanoseconds. -/
def ofParts (seconds nanos : Nat) : Span :=
  ⟨seconds + nanos / perSecond, nanos % perSecond, Nat.mod_lt nanos (by decide)⟩

/-- Whether one span is no longer than another. -/
def atMost (a b : Span) : Bool := a.seconds < b.seconds || (a.seconds == b.seconds && a.nanos ≤ b.nanos)

/-- The shorter of two spans. -/
def min (a b : Span) : Span := if a.atMost b then a else b

/-- The longer of two spans. -/
def max (a b : Span) : Span := if a.atMost b then b else a

/-! ## Sums -/

/-- A sum in the making. Its nanoseconds may make up seconds, which are carried over when the
nanoseconds would outgrow 64 bits. -/
structure Tally where
  seconds : Nat
  nanos : Nat

/-- Adds a span to a sum. -/
def Tally.add? (t : Tally) (s : Span) : Option Tally :=
  (word? (t.seconds + s.seconds)).bind fun seconds =>
    match word? (t.nanos + s.nanos) with
    | some nanos => some ⟨seconds, nanos⟩
    | none =>
      (word? (seconds + t.nanos / perSecond)).map fun seconds =>
        ⟨seconds, t.nanos % perSecond + s.nanos⟩

/-- The span that a sum comes to. -/
def Tally.total? (t : Tally) : Option Span :=
  (word? (t.seconds + t.nanos / perSecond)).map fun seconds =>
    ⟨seconds, t.nanos % perSecond, Nat.mod_lt t.nanos (by decide)⟩

/-- The sum of some spans, unless its seconds outgrow 64 bits on the way. -/
def sum? (spans : List Span) : Option Span :=
  (spans.foldlM Tally.add? (⟨0, 0⟩ : Tally)).bind Tally.total?

/-! ## Quotients -/

/-- The nanoseconds of a quotient make up no second. -/
theorem nanos_div_lt (s : Span) {n : Nat} (hn : 0 < n) :
    s.nanos / n + (s.seconds % n * perSecond + s.nanos % n) / n < perSecond := by
  have hmod : (s.seconds % n + 1) * perSecond ≤ n * perSecond :=
    Nat.mul_le_mul_right _ (Nat.mod_lt _ hn)
  have hnanos := s.nanos_lt
  have hsplit : s.nanos / n + (s.seconds % n * perSecond + s.nanos % n) / n =
      (s.seconds % n * perSecond + s.nanos) / n := by
    rw [Nat.add_comm, ← Nat.add_mul_div_left _ _ hn, Nat.add_assoc, Nat.mod_add_div]
  rw [hsplit, Nat.div_lt_iff_lt_mul hn, Nat.mul_comm perSecond]
  rw [Nat.add_mul] at hmod
  omega

/-- The quotient by a number: whole seconds first, then what is left of them. There is none by zero, or
if what is left outgrows 64 bits when counted in nanoseconds. -/
def div? (s : Span) (n : Nat) : Option Span :=
  if h : 0 < n ∧ s.seconds % n * perSecond + s.nanos % n < limit then
    some ⟨s.seconds / n, s.nanos / n + (s.seconds % n * perSecond + s.nanos % n) / n,
      s.nanos_div_lt h.1⟩
  else none

end Span

/-- Which side dialed. -/
inductive Direction where
  | inbound
  | outbound
deriving DecidableEq, Repr, Inhabited

/-- The name of a direction. -/
def Direction.name : Direction → String
  | inbound => "inbound"
  | outbound => "outbound"

/-- A connected peer. -/
structure PeerMetrics where
  peer : PeerId
  address : Address
  direction : Direction
  latency : Option Span
  pingFailures : Nat
deriving Repr, Inhabited

/-- A summary of round-trip times. -/
structure LatencyStats where
  avg : Span
  min : Span
  max : Span
deriving DecidableEq, Repr

/-- The connections of a node at one moment. -/
structure NetworkMetrics where
  localPeer : PeerId
  peers : List PeerMetrics
deriving Inhabited

namespace NetworkMetrics

/-- The number of connected peers. -/
def connectedPeers (m : NetworkMetrics) : Nat := m.peers.length

/-- The number of peers connected in a direction. -/
def count (m : NetworkMetrics) (d : Direction) : Nat := (m.peers.filter (·.direction = d)).length

/-- The entry of a peer, the first of several. -/
def peer? (m : NetworkMetrics) (p : PeerId) : Option PeerMetrics := m.peers.find? (·.peer = p)

/-- The round-trip times that are known. -/
def latencies (m : NetworkMetrics) : List Span := m.peers.filterMap (·.latency)

/-- How a summary of round-trip times comes out. -/
inductive Summary where
  /-- No round-trip time is known. -/
  | none
  /-- The summary. -/
  | stats (s : LatencyStats)
  /-- A number on the way fits no word. -/
  | overflow
deriving DecidableEq, Repr

/-- The largest count that a sum is divided by. -/
def maxCount : Nat := UInt32.size - 1

/-- The summary of the round-trip times that are known. -/
def latencyStats (m : NetworkMetrics) : Summary :=
  match m.latencies with
  | [] => .none
  | s :: rest =>
    match (Span.sum? (s :: rest)).bind (·.div? (Nat.min (s :: rest).length maxCount)) with
    | Option.none => .overflow
    | some avg => .stats ⟨avg, rest.foldl Span.min s, rest.foldl Span.max s⟩

end NetworkMetrics

end SealedCustody
