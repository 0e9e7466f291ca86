import SealedCustody.Address
import SealedCustody.Error

/-!
# Connections and dials

A connection is named by a number that its dial already had. The dialing side of it matters twice: of
two connections between a pair the one dialed by the smaller peer id is kept, and a bare address finds
a connection again only at the node that dialed it there.
-/

namespace SealedCustody

/-- The name of a dial and of the connection that comes of it. -/
abbrev ConnectionId := Nat

/-- The name of a caller that waits for the outcome of a dial. -/
abbrev CallerId := Nat

/-- A connection as it is handed out. -/
structure Connection where
  peer : PeerId
  id : ConnectionId
  remote : Address
deriving DecidableEq, Repr, Inhabited

/-- A connection to some peer that is established. -/
structure LiveConnection where
  id : ConnectionId
  remote : Address
  /-- The end that dialed. -/
  dialer : PeerId
deriving DecidableEq, Repr, Inhabited

/-- Why a dial failed. -/
structure DialFault where
  reason : String
  /-- Whether the remote was reached and could not be authenticated. -/
  handshake : Bool
deriving DecidableEq, Repr, Inhabited

namespace DialFault

/-- The error of a dial to a target. -/
def error (f : DialFault) (target : String) : Error :=
  if f.handshake then .handshake target f.reason else .dial target f.reason

/-- The node stops. -/
def stopping : DialFault := ⟨"node shutting down", false⟩

/-- There is no address left to dial. -/
def noAddresses : DialFault := ⟨"no addresses", false⟩

/-- The dial was given up. -/
def abandoned : DialFault := ⟨"abandoned", false⟩

/-- No address could be reached. -/
def unreachable : DialFault := ⟨"unreachable", false⟩

/-- No connection came up in time. -/
def tooLate : DialFault := ⟨"not set up in time", false⟩

/-- Someone answered who is not the peer that was dialed. -/
def unauthenticated : DialFault := ⟨"not the peer that was dialed", true⟩

end DialFault

end SealedCustody
