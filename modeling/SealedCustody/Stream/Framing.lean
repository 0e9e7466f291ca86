import SealedCustody.Error

/-!
# Framing by half-close

A message is all that is written before the write side is closed. A payload above the writer's limit is
refused and none of it is sent, and so is any payload after the close. A reader takes at most one octet
more than its limit, which is enough to tell that a message is too long.
-/

namespace SealedCustody

/-- A message longer than a limit. -/
def ProtocolFault.tooLong (limit : Nat) : ProtocolFault :=
  .malformed ("message exceeds " ++ toString limit ++ " bytes")

/-- A write after the close. -/
def ProtocolFault.writeClosed : ProtocolFault := .io "write side closed"

/-- The connection under a stream has gone. -/
def ProtocolFault.connectionClosed : ProtocolFault := .io "connection closed"

/-- The write side of a stream. -/
structure StreamWriter where
  limit : Nat
  closed : Bool
deriving DecidableEq, Repr, Inhabited

namespace StreamWriter

/-- The octets that a write sends. -/
def write (w : StreamWriter) (payload : List UInt8) : Except ProtocolFault (List UInt8) :=
  if w.closed then .error .writeClosed
  else if w.limit < payload.length then .error (.tooLong w.limit)
  else .ok payload

/-- The write side once closed. -/
def close (w : StreamWriter) : StreamWriter := { w with closed := true }

end StreamWriter

/-- A reader in the middle of a message. -/
structure StreamReader where
  limit : Nat
  taken : List UInt8
deriving DecidableEq, Repr, Inhabited

namespace StreamReader

/-- What a reader has come to. -/
inductive Progress where
  | more (r : StreamReader)
  | done (result : Except ProtocolFault (List UInt8))

/-- A reader at the beginning of a message. -/
def start (limit : Nat) : StreamReader := ⟨limit, []⟩

/-- Takes from what has arrived as much as the limit leaves room for, and one octet more. What is left
over is returned; `ended` tells that nothing will follow. Where the limit is the largest word there is no
count for the octet more, but then no message is so long that it could be missed: the octets up to the
limit would have to be held in memory first. -/
def feed (r : StreamReader) (arrived : List UInt8) (ended : Bool) : Progress × List UInt8 :=
  let room := r.limit + 1 - r.taken.length
  let taken := r.taken ++ arrived.take room
  let rest := arrived.drop room
  if r.limit < taken.length then (.done (.error (.tooLong r.limit)), rest)
  else if ended then (.done (.ok taken), rest)
  else (.more { r with taken }, rest)

end StreamReader

end SealedCustody
