import SealedCustody.Account
import SealedCustody.Request
import SealedCustody.Table

/-!
# The request and account store

Requests, users and providers, each in a table under its id. Every write to a request raises its
revision by one and succeeds only on the revision that the writer read and while there is a next one. An
operation that fails leaves the store as it was.
-/

namespace SealedCustody

/-- What is stored. -/
structure Store where
  requests : Table String VerificationRequest
  users : Table String User
  providers : Table String Provider
deriving Inhabited

namespace Store

/-- The store without entries. -/
def empty : Store := ⟨∅, ∅, ∅⟩

/-- A store shows how much it holds. -/
def shown (s : Store) : String :=
  "MemoryStore \x7b requests: " ++ toString s.requests.size ++ ", users: " ++ toString s.users.size
    ++ ", providers: " ++ toString s.providers.size ++ " \x7d"

/-! ## Requests -/

/-- A request that is not there. -/
def missing (id : String) : Error := .notFound ("request " ++ id)

/-- Adds a request under a new id. -/
def create (s : Store) (r : VerificationRequest) : Except Error VerificationRequest × Store :=
  if s.requests.contains r.id then (.error (.storage ("request " ++ r.id ++ " already exists")), s)
  else (.ok r, { s with requests := s.requests.insert r.id r })

/-- Why a record may not replace the one stored, if it may not. -/
def updateFault? (stored r : VerificationRequest) : Option Error :=
  if stored.requesterId ≠ r.requesterId ∨ stored.subjectId ≠ r.subjectId then
    some (.storage ("request " ++ r.id ++ ": requester and subject are immutable"))
  else if (stored.status ≠ r.status ∨ stored.status.isTerminal) ∧
      stored.status.canBecome r.status = false then
    some (.invalidTransition stored.id stored.status r.status)
  else if stored.revision ≠ r.revision then
    some (.conflict r.id r.revision stored.revision)
  else none

/-- Replaces a request by a record that was read at its present revision. -/
def update (s : Store) (r : VerificationRequest) : Except Error VerificationRequest × Store :=
  match s.requests.get? r.id with
  | none => (.error (missing r.id), s)
  | some stored =>
    match updateFault? stored r with
    | some e => (.error e, s)
    | none =>
      match stored.nextRevision with
      | .error e => (.error e, s)
      | .ok revision =>
        let r' := { r with revision }
        (.ok r', { s with requests := s.requests.insert r.id r' })

/-- Older requests first, and by id among those of one time. -/
def isBefore (a b : VerificationRequest) : Bool :=
  match a.createdAt.order b.createdAt with
  | .lt => true
  | .gt => false
  | .eq => !(b.id < a.id)

/-- The requests that a filter selects, oldest first. -/
def get (s : Store) (f : RequestFilter) : Except Error (List VerificationRequest) :=
  if f.isEmpty then .error (.storage "request filter has no fields set")
  else .ok ((s.requests.values.filter f.matches).mergeSort isBefore)

/-- Moves a request from one status to another, provided it is still at a revision. -/
def compareAndSet (s : Store) (id : String) (expected : RequestStatus) (revision : UInt64)
    (next : RequestStatus) (now : Instant) : Except Error VerificationRequest × Store :=
  match s.requests.get? id with
  | none => (.error (missing id), s)
  | some stored =>
    if stored.status ≠ expected then (.error (.invalidTransition id stored.status next), s)
    else if stored.revision ≠ revision then (.error (.conflict id revision stored.revision), s)
    else match stored.transition next now with
      | .error e => (.error e, s)
      | .ok r => (.ok r, { s with requests := s.requests.insert id r })

/-! ## Accounts -/

/-- The id given, or the fresh one if none is. -/
def idOr (fresh id : String) : String := if id = "" then fresh else id

/-- An email that another account has. -/
def emailTaken (email : String) : Error := .storage ("email " ++ email ++ " already registered")

/-- Adds or replaces a user; `fresh` is the id of one that has none. -/
def upsertUser (s : Store) (fresh : String) (u : User) : Except Error User × Store :=
  let u := { u with id := idOr fresh u.id }
  if s.users.values.any fun v => v.email = u.email ∧ v.id ≠ u.id then
    (.error (emailTaken u.email), s)
  else (.ok u, { s with users := s.users.insert u.id u })

/-- Adds or replaces a provider; `fresh` is the id of one that has none. -/
def upsertProvider (s : Store) (fresh : String) (p : Provider) : Except Error Provider × Store :=
  let p := { p with id := idOr fresh p.id }
  if s.providers.values.any fun q => q.email = p.email ∧ q.id ≠ p.id then
    (.error (emailTaken p.email), s)
  else (.ok p, { s with providers := s.providers.insert p.id p })

/-- The user with an email. -/
def userByEmail (s : Store) (email : String) : Option User :=
  s.users.values.find? (·.email = email)

/-- The provider with an email. -/
def providerByEmail (s : Store) (email : String) : Option Provider :=
  s.providers.values.find? (·.email = email)

end Store

end SealedCustody
