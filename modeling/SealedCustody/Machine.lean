import SealedCustody.Address.Socket
import SealedCustody.Error
import SealedCustody.Number.Decimal

/-!
# The machine

The machine has its loopback addresses and one interface, which is up or down. Listening works on the
addresses it has and on the wildcards; port zero stands for a free one. A wildcard listener shows its
loopback address first, and later the address of the interface while that is up.
-/

namespace SealedCustody

/-- What the machine has. -/
structure Machine where
  /-- Whether the interface is up. -/
  isUp : Bool
  /-- Where the search for a free port begins. -/
  nextPort : UInt16
  /-- The ports that are asked for by their numbers. -/
  named : List UInt16
deriving DecidableEq, Repr, Inhabited

/-- What a node is bound to: a host, which may be a wildcard, and a port. -/
structure Listener where
  bound : Socket
deriving DecidableEq, Repr, Inhabited

namespace Listener

/-- Whether a listener gets what is sent to a socket. -/
def accepts (l : Listener) (s : Socket) : Bool :=
  l.bound.port = s.port
    && (l.bound.host = s.host || (l.bound.host.isWildcard && l.bound.host.sameKind s.host))

/-- The address that a listener shows first. -/
def address (l : Listener) : Address :=
  let host := if l.bound.host = .any4 then .loopback4
    else if l.bound.host = .any6 then .loopback6
    else l.bound.host
  Socket.address ⟨host, l.bound.port⟩

end Listener

namespace Machine

/-- The ports that a text gives, each behind the name of the protocol. -/
def portsIn (text : String) : List UInt16 :=
  ((text.splitOn "/tcp/").drop 1).filterMap fun rest =>
    (Decimal.digits? ((rest.toList.dropWhile (· = '+')).takeWhile Char.isDigit)).map UInt16.ofNat

/-- The address of the interface. -/
def interfaceHost : Host := .v4 ⟨192, 168, 1, 10⟩

/-- A machine whose interface is up or down. -/
def start (isUp : Bool) : Machine := ⟨isUp, 53217, []⟩

/-- Keeps free ports clear of those that a text gives. -/
def clearOf (m : Machine) (text : String) : Machine := { m with named := portsIn text ++ m.named }

/-- Passes over port zero and the ports asked for, at most so many. -/
def freeFrom (m : Machine) (port : UInt16) : Nat → UInt16
  | 0 => port
  | tries + 1 =>
    if port = 0 || m.named.contains port then m.freeFrom (port + 1) tries else port

/-- A port that nobody has. There is one port more to try than can be taken. -/
def drawPort (m : Machine) : UInt16 × Machine :=
  let port := m.freeFrom m.nextPort (m.named.length + 1)
  (port, { m with nextPort := port + 1 })

/-- Whether the machine has an address. -/
def has (m : Machine) (h : Host) : Bool := h.isLoopback || (m.isUp && h = interfaceHost)

/-- The address that a listener has through the interface, whether it is up or not. -/
def interfaceAddress? (l : Listener) : Option Address :=
  if l.bound.host = .any4 then some (Socket.address ⟨interfaceHost, l.bound.port⟩) else none

/-- Binds to an address. -/
def bind (m : Machine) (a : Address) : Except Error (Listener × Machine) :=
  match a.socket? with
  | none => .error (.transport "failed to listen: unsupported address")
  | some s =>
    if m.has s.host || s.host.isWildcard then
      if s.port = 0 then
        let (port, m) := m.drawPort
        .ok (⟨{ s with port }⟩, m)
      else .ok (⟨s⟩, { m with named := s.port :: m.named })
    else .error (.transport "failed to listen: address not available")

/-- Binds to all of some addresses, or to none. -/
def bindAll (m : Machine) : List Address → Except Error (List Listener × Machine)
  | [] => .ok ([], m)
  | a :: rest => do
    let (l, m) ← m.bind a
    let (ls, m) ← bindAll m rest
    return (l :: ls, m)

end Machine

end SealedCustody
