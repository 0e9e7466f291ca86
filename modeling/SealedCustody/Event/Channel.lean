import SealedCustody.Event

/-!
# The event channel of a node

Everyone who listens has a place in the sequence of all events. The channel keeps the last ones only; a
receiver whose next event is no longer kept is told so once and goes on with the oldest that is.
-/

namespace SealedCustody

/-- The events of a node. -/
structure EventChannel where
  /-- The number of events ever sent. -/
  sent : Nat
  /-- The last of them, oldest first. -/
  kept : List Event
deriving Inhabited

/-- A place in the sequence of events. -/
structure EventReceiver where
  next : Nat
deriving DecidableEq, Repr, Inhabited

/-- What a receiver finds. -/
inductive Received where
  | event (e : Event)
  /-- Events were lost. -/
  | lagged
  /-- There is no event yet. -/
  | nothing
deriving DecidableEq, Repr

namespace EventChannel

/-- The number of events that are kept. -/
def capacity : Nat := 256

/-- The channel on which nothing was sent. -/
def empty : EventChannel := ⟨0, []⟩

/-- Sends an event. -/
def send (c : EventChannel) (e : Event) : EventChannel :=
  let kept := c.kept ++ [e]
  ⟨c.sent + 1, kept.drop (kept.length - capacity)⟩

/-- A receiver of all that is sent from now on. -/
def subscribe (c : EventChannel) : EventReceiver := ⟨c.sent⟩

/-- The number of the oldest event that is kept. -/
def oldest (c : EventChannel) : Nat := c.sent - c.kept.length

/-- What a receiver finds next, and its place after that. -/
def receive (c : EventChannel) (r : EventReceiver) : Received × EventReceiver :=
  if r.next < c.oldest then (.lagged, ⟨c.oldest⟩)
  else match c.kept[r.next - c.oldest]? with
    | some e => (.event e, ⟨r.next + 1⟩)
    | none => (.nothing, r)

/-- The events that a receiver finds until there is none or some were lost. -/
def drain (c : EventChannel) (r : EventReceiver) : List Event × EventReceiver :=
  if r.next < c.oldest then ([], ⟨c.oldest⟩)
  else (c.kept.drop (r.next - c.oldest), ⟨Nat.max r.next c.sent⟩)

end EventChannel

end SealedCustody
