import SealedCustody.Error
import SealedCustody.Json.Access

/-!
# Errors described in JSON

An error is shown as an object with the name of its kind and its text. It may be described by an object
that gives the name of its kind and its parts.
-/

namespace SealedCustody

/-- The status of a name. -/
def RequestStatus.ofName? (name : String) : Option RequestStatus :=
  RequestStatus.all.find? (·.name = name)

/-- The fault that a description names. -/
def ProtocolFault.ofDescription? (v : Json.Value) : Option ProtocolFault :=
  let reason := (v.textAt? "reason").getD ""
  [unsupported, alreadyRegistered, invalidIdentifier, malformed reason, timeout, io reason].find?
    fun f => v.textAt? "protocol_kind" = some f.kind

/-- What is shown of an error: the name of its kind, its text, and for a protocol the kind of the
fault. -/
def Error.facts (e : Error) : List (String × Json.Value) :=
  [("error", .string e.kind), ("message", .string e.message)] ++
    match e with
    | protocol _ fault => [("protocol_kind", .string fault.kind)]
    | _ => []

/-- An error in JSON. -/
def Error.description (e : Error) : Json.Value := .ofMembers e.facts

/-- The error that a description gives. -/
def Error.ofDescription? (v : Json.Value) : Option Error := do
  let text := (v.textAt? "text").getD ""
  match ← v.textAt? "kind" with
  | "Transport" => some (.transport text)
  | "InvalidAddress" => some (.invalidAddress text)
  | "Dial" => some (.dial (← v.textAt? "target") (← v.textAt? "reason"))
  | "Handshake" => some (.handshake (← v.textAt? "target") (← v.textAt? "reason"))
  | "Protocol" => some (.protocol (← v.textAt? "protocol") (← ProtocolFault.ofDescription? v))
  | "Authentication" => some .authentication
  | "InvalidTransition" => some (.invalidTransition (← v.textAt? "id")
      (← (v.textAt? "from").bind RequestStatus.ofName?)
      (← (v.textAt? "to").bind RequestStatus.ofName?))
  | "Conflict" => some (.conflict (← v.textAt? "id") (← v.naturalAt? "expected").toUInt64
      (← v.naturalAt? "found").toUInt64)
  | "NotFound" => some (.notFound text)
  | "Criteria" => some (.criteria text)
  | "Identity" => some (.identity text)
  | "Config" => some (.config text)
  | "Serialization" => some (.serialization text)
  | "Storage" => some (.storage text)
  | "Io" => some (.io text)
  | "Shutdown" => some .shutdown
  | _ => none

end SealedCustody
