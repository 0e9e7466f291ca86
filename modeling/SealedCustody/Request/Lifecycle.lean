import SealedCustody.Event
import SealedCustody.Store

/-!
# The life of a request

Creating, deciding, withdrawing and amending requests. A call runs as a sequence of accesses to the
store and to the network, and between two accesses of one call any number of accesses of others may
take place. `Call.access?` is what a call asks for next and `Call.resume` is what it becomes on the
reply, together with the events it announces.

Accepting asks the network first and commits afterwards, on the revision that was read, so that what
is accepted is what the network was asked about.
-/

namespace SealedCustody

/-- The answer of a verification round. -/
structure Outcome where
  peer : PeerId
  verdict : Verdict
deriving DecidableEq, Repr, Inhabited

namespace Lifecycle

/-- What a call is for, once the request has been read. -/
inductive Purpose where
  /-- Apply the subject's decision. -/
  | resolve (decision : Decision)
  /-- Withdraw the request. -/
  | cancel
  /-- Replace the criteria, and withdraw the request if the status is `cancelled`. -/
  | amend (criteria : Criteria) (status : RequestStatus)

/-- A call, between two accesses. -/
inductive Call where
  /-- About to store a new request. -/
  | creating (request : VerificationRequest)
  /-- About to read a request. -/
  | reading (id : String) (purpose : Purpose)
  /-- About to ask the network about a request that was read. -/
  | dispatching (id : String) (current : VerificationRequest)
  /-- About to commit a status to a request that was read. -/
  | committing (id : String) (current : VerificationRequest) (next : RequestStatus)
      (outcome : Option Outcome)
  /-- About to write an amended record. -/
  | updating (id : String) (record : VerificationRequest) (status : RequestStatus)
  /-- Returned. -/
  | done (result : Except Error (VerificationRequest × Option Outcome))

/-- An access to the store or the network. -/
inductive Access where
  | create (request : VerificationRequest)
  | get (filter : RequestFilter)
  | update (record : VerificationRequest)
  | compareAndSet (id : String) (expected : RequestStatus) (revision : UInt64)
      (next : RequestStatus)
  | dispatch (request : VerificationRequest)

/-- The reply to an access. -/
inductive Reply where
  | request (result : Except Error VerificationRequest)
  | requests (result : Except Error (List VerificationRequest))
  | outcome (result : Except Error Outcome)

/-- The name of an access. -/
def Access.name : Access → String
  | create _ => "create_request"
  | get _ => "get_requests"
  | update _ => "update_request"
  | compareAndSet .. => "compare_and_set_status"
  | dispatch _ => "dispatch"

/-- The reply to an access that fails. -/
def Access.fail (e : Error) : Access → Reply
  | get _ => .requests (.error e)
  | dispatch _ => .outcome (.error e)
  | _ => .request (.error e)

/-! ## Starting a call -/

/-- A call to create a request, which takes a fresh id if the arguments are sound. -/
def create (fresh requesterId subjectId displayName : String) (criteria : Criteria)
    (now : Instant) : Call :=
  if requesterId = "" ∨ subjectId = "" then
    .done (.error (.criteria "requester and subject must be set"))
  else match criteria.validate with
    | .error e => .done (.error (.ofCriteria e))
    | .ok () =>
      .creating (VerificationRequest.create fresh requesterId subjectId displayName criteria now)

/-- A call to decide a request. -/
def resolve (id : String) (decision : Decision) : Call := .reading id (.resolve decision)

/-- A call to withdraw a request. -/
def cancel (id : String) : Call := .reading id .cancel

/-- A call to amend a request. -/
def amend (id : String) (criteria : Criteria) (status : RequestStatus) : Call :=
  .reading id (.amend criteria status)

/-! ## Running a call -/

namespace Call

/-- What the call asks for next; nothing once it has returned. -/
def access? : Call → Option Access
  | creating r => some (.create r)
  | reading id _ => some (.get (.byId id))
  | dispatching _ current => some (.dispatch current)
  | committing id current next _ =>
    some (.compareAndSet id current.status current.revision next)
  | updating _ record _ => some (.update record)
  | done _ => none

/-- The call once the request has been read. -/
def afterRead (id : String) (current : VerificationRequest) (now : Instant) : Purpose → Call
  | .resolve decision =>
    match current.checkTransition decision.target with
    | .error e => .done (.error e)
    | .ok () =>
      match decision with
      | .reject => .committing id current decision.target none
      | .accept => .dispatching id current
  | .cancel =>
    match current.checkTransition .cancelled with
    | .error e => .done (.error e)
    | .ok () => .committing id current .cancelled none
  | .amend criteria status =>
    if current.status ≠ .pending ∨ status = .accepted ∨ status = .rejected then
      .done (.error (.invalidTransition id current.status status))
    else match criteria.validate with
      | .error e => .done (.error (.ofCriteria e))
      | .ok () => .updating id { current with criteria, updatedAt := now } status

/-- The call on the reply to its access, and the events it announces. A reply of another kind is
never given. -/
def resume (now : Instant) : Call → Reply → Call × List Event
  | creating _, .request (.ok r) => (.done (.ok (r, none)), [.requestCreated r.id])
  | reading id purpose, .requests (.ok (current :: _)) => (afterRead id current now purpose, [])
  | reading id _, .requests (.ok []) => (.done (.error (Store.missing id)), [])
  | dispatching id current, .outcome (.ok o) =>
    (.committing id current .accepted (some o), [.verificationDispatched id o.peer o.verdict])
  | dispatching id _, .outcome (.error e) => (.done (.error e), [.dispatchFailed id e.message])
  | committing id _ _ outcome, .request (.ok r) =>
    (.done (.ok (r, outcome)), [.requestResolved id r.status])
  | updating id _ status, .request (.ok r) =>
    if status = .cancelled then (.reading id .cancel, []) else (.done (.ok (r, none)), [])
  | creating _, .request (.error e) | committing _ _ _ _, .request (.error e)
  | updating _ _ _, .request (.error e) | reading _ _, .requests (.error e) =>
    (.done (.error e), [])
  | call, _ => (call, [])

end Call

end Lifecycle

/-- Performs an access to the store; one to the network is not for the store. -/
def Store.perform (s : Store) (now : Instant) : Lifecycle.Access → Option Lifecycle.Reply × Store
  | .create r => let (x, s) := s.create r; (some (.request x), s)
  | .get f => (some (.requests (s.get f)), s)
  | .update r => let (x, s) := s.update r; (some (.request x), s)
  | .compareAndSet id expected revision next =>
    let (x, s) := s.compareAndSet id expected revision next now
    (some (.request x), s)
  | .dispatch _ => (none, s)

end SealedCustody
