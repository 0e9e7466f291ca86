import SealedCustody.Criteria
import SealedCustody.Request.Status

/-!
# Errors

What may go wrong, each kind with its text. `Error.isRetryable` tells whether the same call may
succeed later, `Error.isNetwork` whether the fault lies with the network.
-/

namespace SealedCustody

/-- What went wrong with a protocol. -/
inductive ProtocolFault where
  | unsupported
  | alreadyRegistered
  | invalidIdentifier
  | malformed (reason : String)
  | timeout
  | io (reason : String)
deriving DecidableEq, Repr, Inhabited

/-- The text of a protocol fault. -/
def ProtocolFault.message : ProtocolFault → String
  | unsupported => "unsupported protocol"
  | alreadyRegistered => "handler already registered"
  | invalidIdentifier => "invalid protocol identifier"
  | malformed reason => "malformed payload: " ++ reason
  | timeout => "timed out"
  | io reason => "stream I/O: " ++ reason

/-- The name of the kind of a protocol fault. -/
def ProtocolFault.kind : ProtocolFault → String
  | unsupported => "UnsupportedProtocol"
  | alreadyRegistered => "AlreadyRegistered"
  | invalidIdentifier => "InvalidIdentifier"
  | malformed _ => "Malformed"
  | timeout => "Timeout"
  | io _ => "Io"

/-- What went wrong. -/
inductive Error where
  | transport (text : String)
  | invalidAddress (text : String)
  | dial (target reason : String)
  | handshake (target reason : String)
  | protocol (id : String) (fault : ProtocolFault)
  | authentication
  | invalidTransition (id : String) (source target : RequestStatus)
  | conflict (id : String) (expected found : UInt64)
  | notFound (what : String)
  /-- A request has been written to as often as its revision can count. -/
  | exhausted (id : String)
  | criteria (text : String)
  | identity (text : String)
  | config (text : String)
  | serialization (text : String)
  | storage (text : String)
  | io (text : String)
  | shutdown
deriving DecidableEq, Repr, Inhabited

namespace Error

/-- The text of an error. -/
def message : Error → String
  | transport text => "transport error: " ++ text
  | invalidAddress text => "invalid address: " ++ text
  | dial target reason => "dial to " ++ target ++ " failed: " ++ reason
  | handshake target reason => "handshake with " ++ target ++ " failed: " ++ reason
  | protocol id fault => "protocol " ++ id ++ ": " ++ fault.message
  | authentication => "envelope authentication failed"
  | invalidTransition id source target =>
    "request " ++ id ++ ": invalid transition " ++ source.name ++ " -> " ++ target.name
  | conflict id expected found =>
    "request " ++ id ++ " changed concurrently (revision " ++ toString found.toNat ++ ", expected "
      ++ toString expected.toNat ++ ")"
  | notFound what => "not found: " ++ what
  | exhausted id => "request " ++ id ++ ": no revision is left"
  | criteria text => "criteria error: " ++ text
  | identity text => "identity error: " ++ text
  | config text => "configuration error: " ++ text
  | serialization text => "serialization error: " ++ text
  | storage text => "storage error: " ++ text
  | io text => "I/O error: " ++ text
  | shutdown => "node is shut down"

/-- The name of the kind of an error. -/
def kind : Error → String
  | transport _ => "Transport"
  | invalidAddress _ => "InvalidAddress"
  | dial .. => "Dial"
  | handshake .. => "Handshake"
  | protocol .. => "Protocol"
  | authentication => "Authentication"
  | invalidTransition .. => "InvalidTransition"
  | conflict .. => "Conflict"
  | notFound _ => "NotFound"
  | exhausted _ => "Exhausted"
  | criteria _ => "Criteria"
  | identity _ => "Identity"
  | config _ => "Config"
  | serialization _ => "Serialization"
  | storage _ => "Storage"
  | io _ => "Io"
  | shutdown => "Shutdown"

/-- Whether the same call may succeed later. -/
def isRetryable : Error → Bool
  | dial _ _ | io _ => true
  | protocol _ .timeout | protocol _ (.io _) => true
  | _ => false

/-- Whether the fault lies with the network. -/
def isNetwork : Error → Bool
  | transport _ | dial _ _ | handshake _ _ | protocol _ _ | shutdown => true
  | _ => false

/-- A fault of a criteria or record. -/
def ofCriteria (fault : CriteriaFault) : Error := criteria fault.message

/-- A JSON text that cannot be read as what was asked for. -/
def notJson : Error := serialization "not a JSON text of the expected form"

end Error

/-- The record that octets hold: a JSON object. -/
def Record.ofOctets (bs : List UInt8) : Except Error Record :=
  match Json.Value.ofOctets? bs with
  | none => .error .notJson
  | some (.object members) => .ok members
  | some v => .error (.ofCriteria (.notRecord v.kind))

end SealedCustody
