import SealedCustody.Connection
import SealedCustody.Event.Channel

/-!
# Staying connected to a bootstrap peer

A task dials one address. While the peer is connected it watches the events of its node, to which it
subscribed before it dialed; when the peer has gone, or the dial failed in a way that may pass, it pauses
and dials again. A pause is twice as long as the one before, up to a limit, and starts over after a
dial that succeeded. An error that will not pass ends the task, and so does the stop of the node.
-/

namespace SealedCustody

namespace Bootstrap

/-- Seconds of the first pause. -/
def firstPause : Nat := 1

/-- Seconds of the longest pause. -/
def longestPause : Nat := 60

/-- What a task waits for. -/
inductive Phase where
  /-- The outcome of a dial. -/
  | dialing
  /-- That a peer disconnects. -/
  | watching (peer : PeerId)
  /-- The number of connections to a peer, since events were lost. -/
  | counting (peer : PeerId)
  /-- The end of a pause. -/
  | pausing
  /-- Nothing: the task has ended. -/
  | stopped
deriving DecidableEq, Repr

end Bootstrap

/-- A task that stays connected to one address. -/
structure Bootstrap where
  phase : Bootstrap.Phase
  /-- Seconds of the next pause. -/
  delay : Nat
  receiver : EventReceiver
deriving Repr

namespace Bootstrap

/-- What a task meets with. -/
inductive Input where
  | dialed (result : Except Error Connection)
  | received (r : Received)
  | counted (result : Except Error Nat)
  | paused
  /-- The node is told to stop. -/
  | shutdown

/-- What a task does next. -/
inductive Action where
  | dial
  | count (peer : PeerId)
  | pause (seconds : Nat)
  | wait
deriving DecidableEq, Repr

/-- A task that dials for the first time. -/
def start (r : EventReceiver) : Bootstrap := ⟨.dialing, firstPause, r⟩

/-- The task pauses before it dials again. -/
def pause (b : Bootstrap) : Bootstrap × Action :=
  ({ b with phase := .pausing }, .pause b.delay)

/-- The task has ended. -/
def stop (b : Bootstrap) : Bootstrap × Action := ({ b with phase := .stopped }, .wait)

/-- One step of a task; `fresh` is the receiver it subscribes as when it dials. An input that its phase
does not wait for changes nothing. So a stop of the node that comes then is kept by whoever moves the task
on, and met with when it next watches or pauses (`World.resumeKeeper`). -/
def step (fresh : EventReceiver) (b : Bootstrap) (i : Input) : Bootstrap × Action :=
  match b.phase, i with
  | .dialing, .dialed (.ok c) =>
    ({ b with phase := .watching c.peer, delay := firstPause }, .wait)
  | .dialing, .dialed (.error e) =>
    if e = .shutdown ∨ e.isRetryable = false then b.stop else b.pause
  | .watching p, .received (.event (.peerDisconnected q)) => if q = p then b.pause else (b, .wait)
  | .watching p, .received .lagged => ({ b with phase := .counting p }, .count p)
  | .counting _, .counted (.ok 0) => b.pause
  | .counting p, .counted (.ok _) => ({ b with phase := .watching p }, .wait)
  | .counting _, .counted (.error _) => b.stop
  | .pausing, .paused =>
    (⟨.dialing, Nat.min (b.delay * 2) longestPause, fresh⟩, .dial)
  | .watching _, .shutdown | .pausing, .shutdown => b.stop
  | _, _ => (b, .wait)

end Bootstrap

end SealedCustody
