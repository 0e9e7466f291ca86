import SealedCustody.PeerId
import SealedCustody.Wire.Message

/-!
# Node events

What a node tells those who listen to it.
-/

namespace SealedCustody

/-- Something that happened at a node. -/
inductive Event where
  | started
  | shuttingDown
  | listeningOn (address : String)
  | peerConnected (peer : PeerId)
  | peerDisconnected (peer : PeerId)
  | userEnrolled (userId : String)
  | dataStored (hash : String)
  | requestCreated (requestId : String)
  | requestResolved (requestId : String) (status : RequestStatus)
  | verificationDispatched (requestId : String) (peer : PeerId) (verdict : Verdict)
  | dispatchFailed (requestId : String) (reason : String)
deriving DecidableEq, Repr, Inhabited

/-- An event in words: its name, and what it is about. -/
def Event.words : Event → List String
  | started => ["Started"]
  | shuttingDown => ["ShuttingDown"]
  | listeningOn a => ["ListeningOn", a]
  | peerConnected p => ["PeerConnected", p.text]
  | peerDisconnected p => ["PeerDisconnected", p.text]
  | userEnrolled u => ["UserEnrolled", u]
  | dataStored h => ["DataStored", h]
  | requestCreated id => ["RequestCreated", id]
  | requestResolved id s => ["RequestResolved", id, s.name]
  | verificationDispatched id p v => ["VerificationDispatched", id, p.text, v.shown]
  | dispatchFailed id r => ["DispatchFailed", id, r]

end SealedCustody
