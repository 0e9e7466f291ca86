import SealedCustody.Error
import SealedCustody.Instant

/-!
# Verification requests

A request of a provider to have criteria checked against a subject's record. Its id, requester and
subject never change; its status moves along the transition table only, and its revision counts the
writes made to it.
-/

namespace SealedCustody

open Json

/-- An instant is written in RFC 3339 form. -/
def Instant.format : Format Instant where
  tree t := .string (some t.text)
  read
    | _, .string (some s) => Instant.ofText? s
    | _, _ => none

/-- A request to have criteria checked against a subject's record. -/
structure VerificationRequest where
  id : String
  requesterId : String
  subjectId : String
  displayName : String
  criteria : Criteria
  status : RequestStatus
  createdAt : Instant
  updatedAt : Instant
  revision : UInt64
deriving Inhabited

namespace VerificationRequest

/-- A pending request, with a fresh id and the time it is made. -/
def create (id requesterId subjectId displayName : String) (criteria : Criteria) (now : Instant) :
    VerificationRequest :=
  ⟨id, requesterId, subjectId, displayName, criteria, .pending, now, now, 0⟩

/-- Whether the request may move to a status. -/
def checkTransition (r : VerificationRequest) (next : RequestStatus) : Except Error Unit :=
  if r.status.canBecome next then .ok () else .error (.invalidTransition r.id r.status next)

/-- The revision after one more write. There is none after the largest word: a write to a request that has
come so far is an overflow, which stops the program and is no answer that a caller could be given. Here
it is one, `exhausted`, so that the count is seen never to wrap; only a record that was made with such a
revision, or 2 ^ 64 - 1 writes, lead to it. -/
def nextRevision (r : VerificationRequest) : Except Error UInt64 :=
  if r.revision.toNat + 1 < UInt64.size then .ok (r.revision + 1) else .error (.exhausted r.id)

/-- The request after a move. -/
def transition (r : VerificationRequest) (next : RequestStatus) (now : Instant) :
    Except Error VerificationRequest :=
  match r.checkTransition next with
  | .error e => .error e
  | .ok () =>
    r.nextRevision.map fun revision => { r with status := next, updatedAt := now, revision }

/-- The names of the fields in order. -/
def fieldNames : List String :=
  ["requestid", "providerid", "userid", "companyname", "datarequests", "status", "created_at",
    "updated_at", "revision"]

/-- The fields of a request; the revision may be left out and unknown fields are ignored. -/
def format : Format VerificationRequest where
  tree r := objectOf [("requestid", some (Format.text.tree r.id)),
    ("providerid", some (Format.text.tree r.requesterId)),
    ("userid", some (Format.text.tree r.subjectId)),
    ("companyname", some (Format.text.tree r.displayName)),
    ("datarequests", some (Criteria.format.tree r.criteria)),
    ("status", some (RequestStatus.format.tree r.status)),
    ("created_at", some (Instant.format.tree r.createdAt)),
    ("updated_at", some (Instant.format.tree r.updatedAt)),
    ("revision", some (Format.word.tree r.revision))]
  read d t := do
    let (fields, d) ← t.fields? fieldNames .ignored d
    some ⟨← fields.required "requestid" .text d, ← fields.required "providerid" .text d,
      ← fields.required "userid" .text d, ← fields.required "companyname" .text d,
      ← fields.required "datarequests" Criteria.format d,
      ← fields.required "status" RequestStatus.format d,
      ← fields.required "created_at" Instant.format d,
      ← fields.required "updated_at" Instant.format d,
      ← fields.withDefault "revision" .word d 0⟩

end VerificationRequest

/-! ## Selecting requests -/

/-- Selects requests by any of their identifiers. -/
structure RequestFilter where
  id : Option String
  subjectId : Option String
  requesterId : Option String
deriving DecidableEq, Repr, Inhabited

namespace RequestFilter

/-- The request with an id. -/
def byId (id : String) : RequestFilter := ⟨some id, none, none⟩

/-- All requests about a subject. -/
def bySubject (id : String) : RequestFilter := ⟨none, some id, none⟩

/-- All requests of a requester. -/
def byRequester (id : String) : RequestFilter := ⟨none, none, some id⟩

/-- Whether nothing is selected by. -/
def isEmpty (f : RequestFilter) : Bool :=
  f.id.isNone && f.subjectId.isNone && f.requesterId.isNone

/-- Whether an identifier is the one selected by, if one is. -/
def agrees (wanted : Option String) (found : String) : Bool := wanted.all (· == found)

/-- Whether a request has every identifier selected by. -/
def «matches» (f : RequestFilter) (r : VerificationRequest) : Bool :=
  agrees f.id r.id && agrees f.subjectId r.subjectId && agrees f.requesterId r.requesterId

/-- The fields of a filter, all of which may be left out; unknown fields are ignored. -/
def format : Format RequestFilter where
  tree f := objectOf [("requestid", f.id.map Format.text.tree),
    ("userid", f.subjectId.map Format.text.tree),
    ("providerid", f.requesterId.map Format.text.tree)]
  read d t := do
    let (fields, d) ← t.fields? ["requestid", "userid", "providerid"] .ignored d
    some ⟨← fields.optional "requestid" .text d, ← fields.optional "userid" .text d,
      ← fields.optional "providerid" .text d⟩

end RequestFilter

end SealedCustody
