import SealedCustody.Connection
import SealedCustody.Stream.Handler

/-!
# Programs

What runs at a node is a program: it asks one question after the other of its node and the network, and
waits for each answer. A program is a finite tree, so that it always ends if every question is answered.
-/

namespace SealedCustody

/-- The name of a node. -/
abbrev NodeId := Nat

/-- The name of a stream. -/
abbrev StreamId := Nat

/-- One end of a stream: that of the node that opened it, or the other. -/
structure StreamEnd where
  stream : StreamId
  opener : Bool
deriving DecidableEq, Repr, Inhabited

/-- A question of a program. -/
inductive Query where
  /-- A connection, within some time or within the node's own limit. -/
  | dial (node : NodeId) (address : Address) (timeout : Option Nat)
  /-- A stream to a peer. -/
  | openStream (node : NodeId) (peer : PeerId) (protocol : ProtocolId)
  /-- A stream to the responder of pings at the other end of a link. -/
  | openPing (node : NodeId) (link : ConnectionId)
  | write (e : StreamEnd) (payload : List UInt8)
  | finish (e : StreamEnd)
  | read (e : StreamEnd)
  /-- So many octets, or nothing if no more will arrive. -/
  | readBlock (e : StreamEnd) (size : Nat)
  /-- The answer to a ping, or the end of the stream, or the end of patience. -/
  | awaitPong (e : StreamEnd)
  /-- A ping has failed. -/
  | pingFailed (node : NodeId) (link : ConnectionId)
  /-- The stream is let go of. -/
  | release (e : StreamEnd)
  | connections (node : NodeId)
  | close (node : NodeId) (id : ConnectionId)
  | serve (node : NodeId) (s : Service) (request : List UInt8)
  | sealUpload (node : NodeId) (request : List UInt8)
  /-- A connection to a peer, or the end of patience. -/
  | meet (node : NodeId) (peer : PeerId) (millis : Nat)
  | sleep (millis : Nat)
  /-- One of so many, if there are any. Which one it is is left to chance. -/
  | choose (among : Nat)
  /-- A question that is never answered. -/
  | never

/-- The answers to a question. -/
def Query.Answer : Query → Type
  | dial .. => Except Error Connection
  | openStream .. => Except Error StreamEnd
  | openPing .. => Option StreamEnd
  | write .. | finish .. => Except Error Unit
  | read .. => Except Error (List UInt8)
  | readBlock .. => Option (List UInt8)
  | connections .. => Except Error (List Connection)
  | close .. => Except Error Bool
  | serve .. => Except Error (List UInt8)
  | sealUpload .. => Except Error SealedUpload
  | awaitPong .. | pingFailed .. | release .. | meet .. | sleep .. => Unit
  | choose among => Option (Fin among)
  | never => Empty

/-- A program that comes to a value. -/
inductive Program (α : Type) : Type where
  | done (a : α)
  | ask (q : Query) (next : q.Answer → Program α)

namespace Program

/-- A program goes on with what another came to. -/
def bind {α β : Type} (p : Program α) (f : α → Program β) : Program β :=
  match p with
  | done a => f a
  | ask q next => ask q fun a => bind (next a) f

instance : Monad Program where
  pure := done
  bind := bind

/-- The program of one question. -/
def query (q : Query) : Program q.Answer := ask q done

/-- Goes on if there is no error. -/
def andThen {α β : Type} (p : Program (Except Error α)) (f : α → Program (Except Error β)) :
    Program (Except Error β) :=
  p.bind fun
    | .ok a => f a
    | .error e => done (.error e)

end Program

end SealedCustody
