import SealedCustody.Json.Format

/-!
# The status of a request

A request starts out pending. From there it is accepted, rejected or cancelled, and each of these is
final.
-/

namespace SealedCustody

open Json

/-- Where a request stands. -/
inductive RequestStatus where
  | pending
  | accepted
  | rejected
  | cancelled
deriving DecidableEq, Repr, Inhabited

namespace RequestStatus

/-- The name of a status. -/
def name : RequestStatus → String
  | pending => "Pending"
  | accepted => "Accepted"
  | rejected => "Rejected"
  | cancelled => "Cancelled"

/-- All statuses. -/
def all : List RequestStatus := [pending, accepted, rejected, cancelled]

/-- Whether the status is final. -/
def isTerminal (s : RequestStatus) : Bool := s != pending

/-- The transition table. -/
def canBecome : RequestStatus → RequestStatus → Bool
  | pending, accepted => true
  | pending, rejected => true
  | pending, cancelled => true
  | _, _ => false

/-- A status is written as its name. -/
def format : Format RequestStatus := .choice (all.map fun s => (s.name, s)) name

end RequestStatus

/-- The subject's answer to a request. -/
inductive Decision where
  | accept
  | reject
deriving DecidableEq, Repr, Inhabited

namespace Decision

/-- The name of a decision. -/
def name : Decision → String
  | accept => "accept"
  | reject => "reject"

/-- The status that a decision leads to. -/
def target : Decision → RequestStatus
  | accept => .accepted
  | reject => .rejected

/-- A decision is written as its name. -/
def format : Format Decision := .choice ([accept, reject].map fun d => (d.name, d)) name

end Decision

end SealedCustody
