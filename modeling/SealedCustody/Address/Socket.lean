import SealedCustody.Address

/-!
# Sockets

The internet address and port that an address leads to. They stand at its end, the peer aside; what
stands before them is not looked at.
-/

namespace SealedCustody

/-- An internet address of either kind. -/
inductive Host where
  | v4 (ip : Ip4)
  | v6 (ip : Ip6)
deriving DecidableEq, Repr, Inhabited

namespace Host

/-- All addresses of a machine, of the first kind. -/
def any4 : Host := .v4 ⟨0, 0, 0, 0⟩

/-- All addresses of a machine, of the second kind. -/
def any6 : Host := .v6 ⟨[0, 0, 0, 0, 0, 0, 0, 0]⟩

/-- The machine itself, of the first kind. -/
def loopback4 : Host := .v4 ⟨127, 0, 0, 1⟩

/-- The machine itself, of the second kind. -/
def loopback6 : Host := .v6 ⟨[0, 0, 0, 0, 0, 0, 0, 1]⟩

/-- Whether all addresses of a machine are meant. -/
def isWildcard (h : Host) : Bool := h = any4 || h = any6

/-- Whether the machine itself is meant. -/
def isLoopback : Host → Bool
  | .v4 ip => ip.a = 127
  | h => h = loopback6

/-- Whether two hosts are of one kind. -/
def sameKind : Host → Host → Bool
  | .v4 _, .v4 _ => true
  | .v6 _, .v6 _ => true
  | _, _ => false

/-- The component that names a host. -/
def component : Host → Component
  | .v4 ip => .ip4 ip
  | .v6 ip => .ip6 ip

end Host

/-- A host and a port. -/
structure Socket where
  host : Host
  port : UInt16
deriving DecidableEq, Repr, Inhabited

/-- The address of a socket. -/
def Socket.address (s : Socket) : Address := [s.host.component, .port .tcp s.port]

/-- The socket that components lead to, which are read from the last one on. -/
def Address.socketFrom? (port : Option UInt16) : List Component → Option Socket
  | [] => none
  | .ip4 ip :: _ => port.map fun p => ⟨.v4 ip, p⟩
  | .ip6 ip :: _ => port.map fun p => ⟨.v6 ip, p⟩
  | .port .tcp p :: rest => if port.isNone then socketFrom? (some p) rest else none
  | .peer _ :: rest => socketFrom? port rest
  | _ :: _ => none

/-- The socket that an address leads to. -/
def Address.socket? (a : Address) : Option Socket := socketFrom? none a.reverse

/-- Whether a socket can be dialed. -/
def Socket.isDialable (s : Socket) : Bool := s.port != 0 && !s.host.isWildcard

end SealedCustody
