import SealedCustody.Request.Lifecycle

/-!
# The request manager

Runs calls on requests to their end. What a manager works with is left open: any clock, any way to get
at a store and a network, and anyone who is told of events, as long as they can be used in sequence.
-/

namespace SealedCustody

/-- What a manager works with. -/
structure Desk (m : Type → Type) where
  now : m Instant
  access : Lifecycle.Access → m Lifecycle.Reply
  announce : Event → m Unit

namespace Desk

open Lifecycle

variable {m : Type → Type} [Monad m]

/-- The most accesses that a call makes: to read, update, read again and withdraw. -/
def maxAccesses : Nat := 4

/-- Runs a call that makes no more than some number of accesses. -/
def run (d : Desk m) : Nat → Call → m (Except Error (VerificationRequest × Option Outcome))
  | _, .done r => pure r
  | 0, _ => pure (.error .shutdown)
  | n + 1, call =>
    match call.access? with
    | none => pure (.error .shutdown)
    | some access => do
      let reply ← d.access access
      let (call, events) := call.resume (← d.now) reply
      events.forM d.announce
      run d n call

/-- Runs a call. -/
def complete (d : Desk m) (call : Call) : m (Except Error (VerificationRequest × Option Outcome)) :=
  d.run maxAccesses call

/-- The requests that a filter selects. -/
def list (d : Desk m) (f : RequestFilter) : m (Except Error (List VerificationRequest)) := do
  match ← d.access (.get f) with
  | .requests r => return r
  | _ => return .error .shutdown

/-- One request. -/
def get (d : Desk m) (id : String) : m (Except Error VerificationRequest) := do
  match ← d.list (.byId id) with
  | .ok (r :: _) => return .ok r
  | .ok [] => return .error (Store.missing id)
  | .error e => return .error e

end Desk

end SealedCustody
