import SealedCustody.Address
import SealedCustody.Error

/-!
# Peer addresses

Addresses as they are configured: blanks at their ends are dropped, and where a peer has to be named
one without a peer is refused.
-/

namespace SealedCustody.Address

/-- The address that a configured text gives. -/
def ofText (s : String) : Except Error Address :=
  let trimmed := Text.trim s
  if trimmed = "" then .error (.invalidAddress Fault.empty.message)
  else (read trimmed).mapError fun f => .invalidAddress (trimmed ++ ": " ++ f.message)

/-- The peer and the address that a configured text gives, which has to name a peer. -/
def ofPeerText (s : String) : Except Error (PeerId × Address) :=
  match ofText s with
  | .error e => .error e
  | .ok a =>
    match a.splitPeer with
    | (some p, bare) => .ok (p, bare)
    | (none, _) => .error (.invalidAddress (s ++ ": missing /p2p/<peer id> suffix"))

/-- The addresses that some texts give, or the first fault. -/
def ofTexts (ss : List String) : Except Error (List Address) := ss.mapM ofText

end SealedCustody.Address
