import SealedCustody.PeerId
import SealedCustody.Table

/-!
# Closure signals

A stream outlives the connection it runs on, so it watches a signal that is fired when that connection
goes away. All who subscribe to a peer between two firings share one signal; a firing takes it away, and
the next subscriber gets a fresh one. A signal that has fired stays fired.
-/

namespace SealedCustody

/-- The name of a signal. -/
abbrev SignalId := Nat

/-- The signals of a node. -/
structure Closures where
  /-- The name of the next fresh signal. -/
  next : SignalId
  /-- The signal that the subscribers of a peer get. -/
  current : Table PeerId SignalId
  /-- The signals that have fired. -/
  fired : List SignalId
deriving Inhabited

namespace Closures

/-- No signals. -/
def empty : Closures := ⟨0, ∅, []⟩

/-- The signal that tells of the closing of the present connection to a peer. -/
def subscribe (c : Closures) (p : PeerId) : SignalId × Closures :=
  match c.current.get? p with
  | some s => (s, c)
  | none => (c.next, { c with next := c.next + 1, current := c.current.insert p c.next })

/-- Fires the signal of a peer, if anyone has subscribed. -/
def fire (c : Closures) (p : PeerId) : Closures :=
  match c.current.get? p with
  | some s => { c with current := c.current.erase p, fired := s :: c.fired }
  | none => c

/-- Fires every signal. -/
def fireAll (c : Closures) : Closures :=
  { c with current := ∅, fired := c.current.values ++ c.fired }

/-- Whether a signal has fired. -/
def isFired (c : Closures) (s : SignalId) : Bool := c.fired.contains s

end Closures

end SealedCustody
