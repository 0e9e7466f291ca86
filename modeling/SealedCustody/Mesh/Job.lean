import SealedCustody.Mesh.Program

/-!
# Jobs

A program under way. While it waits for an answer a job keeps the question and what follows the
answer, together with the ticket under which the answer will be found and the time until which it waits.
-/

namespace SealedCustody

/-- What a job waits for. -/
structure Wait where
  /-- The name under which the answer will be found. -/
  ticket : Nat
  /-- The time at which the waiting ends. -/
  deadline : Option Nat
deriving DecidableEq, Repr, Inhabited

/-- A program under way. -/
inductive Job (α : Type) : Type where
  /-- Not begun. -/
  | ready (p : Program α)
  /-- Waiting for an answer. -/
  | blocked (q : Query) (wait : Wait) (next : q.Answer → Program α)
  | finished (a : α)

namespace Job

variable {α : Type}

/-- The value that a job came to. -/
def value? : Job α → Option α
  | finished a => some a
  | _ => none

/-- The time at which a job stops waiting. -/
def deadline? : Job α → Option Nat
  | blocked _ wait _ => wait.deadline
  | _ => none

/-- Whether a job has come to its end. -/
def isFinished (j : Job α) : Bool := j.value?.isSome

end Job

end SealedCustody
