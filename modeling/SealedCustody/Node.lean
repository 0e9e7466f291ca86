import SealedCustody.Connection.Links
import SealedCustody.Event.Channel
import SealedCustody.Identity.KeyFile
import SealedCustody.Machine
import SealedCustody.Peers
import SealedCustody.Store
import SealedCustody.Stream.Handler

/-!
# Nodes

A node is an identity bound to addresses, with its connections and handlers. A custody node has besides
the built-in handlers a store of requests, a source of peers to ask, and addresses to stay connected
to. `Node.build` makes one from its configuration; if it fails, it says what it leaves running.
-/

namespace SealedCustody

/-! ## Settings in milliseconds -/

namespace NetworkConfig

/-- How long a dial may take. -/
def dialTimeout (c : NetworkConfig) : Nat := c.dialTimeoutSecs * 1000

/-- How long one operation on a stream may take. -/
def streamTimeout (c : NetworkConfig) : Nat := c.streamTimeoutSecs * 1000

/-- How long a connection without streams is kept. -/
def idleTimeout (c : NetworkConfig) : Nat := c.idleConnectionTimeoutSecs * 1000

/-- How long after one ping the next is sent. -/
def pingInterval (c : NetworkConfig) : Nat := c.pingIntervalSecs * 1000

end NetworkConfig

/-! ## The parts of a node -/

/-- Where the peers to ask come from. -/
inductive PeerSource where
  /-- Those that are connected. -/
  | connected
  | listed (addresses : List Address)
deriving DecidableEq, Repr, Inhabited

/-- What makes a node a custody node. -/
structure Office where
  store : Store
  peers : PeerSource
  bootstrap : List Address
  /-- Whether the node was told to stop. -/
  stopping : Bool
  /-- Whether the first receiver of events was handed out. -/
  receiverTaken : Bool
deriving Inhabited

/-- A node. -/
structure Node where
  identity : Identity
  network : NetworkConfig
  running : Bool
  listeners : List Listener
  /-- The addresses that it shows. -/
  listening : List Address
  endpoint : Endpoint
  handlers : Handlers
  events : EventChannel
  custody : Custody
  office : Option Office
deriving Inhabited

namespace Node

/-- The id of a node. -/
def peerId (n : Node) : PeerId := n.identity.peerId

/-- The addresses that others can dial, with the node's id. -/
def dialable (n : Node) : List Address := n.listening.map fun a => a.withPeer n.peerId

/-- The node without its transport: it listens and answers no longer. -/
def shutDown (n : Node) : Node := { n with running := false, listeners := [], listening := [] }

/-- Sends an event to those who listen to the node. -/
def emit (n : Node) (e : Event) : Node := { n with events := n.events.send e }

/-- The node with the requests changed. -/
def withStore (n : Node) (s : Store) : Node :=
  { n with office := n.office.map fun o => { o with store := s } }

/-! ## Starting -/

/-- The distinct addresses that listeners show first. -/
def firstAddresses (ls : List Listener) : List Address :=
  ls.foldl (fun as l => if as.contains l.address then as else as ++ [l.address]) []

/-- Binds a node to the addresses it is to listen on. -/
def bind (m : Machine) (network : NetworkConfig) (identity : Identity) :
    Except Error (Node × Machine) := do
  let addresses ← Address.ofTexts network.listen
  let (listeners, m) ← m.bindAll addresses
  return ({
    identity, network, running := true, listeners
    listening := firstAddresses listeners
    endpoint := .empty identity.peerId
    handlers := ∅, events := .empty, custody := .empty, office := none }, m)

/-- How a start ends. A node that is left running although the start failed is kept by its own upload
handler. -/
inductive Start where
  | started (n : Node) (m : Machine)
  | failed (e : Error) (left : Option Node) (m : Machine)

/-- Whether the node's own handlers keep it running when nobody holds it. -/
def holdsItself (n : Node) : Bool := n.handlers.contains .upload

/-- A start that failed once the node was bound. -/
def giveUp (n : Node) (m : Machine) (e : Error) : Start :=
  .failed e (if n.running ∧ n.holdsItself then some n else none) m

/-! ## Bare nodes -/

/-- Registers handlers under protocols given as text, up to the first that fails. -/
def registerTexts (n : Node) : List (String × Handler) → Except Error Unit × Node
  | [] => (.ok (), n)
  | (text, h) :: rest =>
    match ProtocolId.ofText text with
    | .error e => (.error e, n)
    | .ok p =>
      match n.handlers.register p h with
      | .error e => (.error e, n)
      | .ok hs => registerTexts { n with handlers := hs } rest

/-- Registers the built-in handlers, up to the first that fails. -/
def registerBuiltins (n : Node) : Except Error Unit × Node :=
  let (r, hs) := n.handlers.registerAll Handlers.builtin
  (r, { n with handlers := hs })

/-- Starts a node that has only the handlers it is given. -/
def startBare (m : Machine) (network : NetworkConfig) (identity : Identity) (builtins : Bool)
    (handlers : List (String × Handler)) : Start :=
  match bind m network identity with
  | .error e => .failed e none m
  | .ok (n, m) =>
    match if builtins then n.registerBuiltins else (.ok (), n) with
    | (.error e, n) => giveUp n m e
    | (.ok (), n) =>
      match n.registerTexts handlers with
      | (.error e, n) => giveUp n m e
      | (.ok (), n) => .started n m

/-! ## Custody nodes -/

/-- What a custody node is built from. -/
structure Plan where
  config : NodeConfig
  /-- The identity, in place of the configured one. -/
  identity : Option Identity
  /-- The peers to ask, in place of the configured ones. -/
  peers : Option (List Address)
  /-- The identity that is kept where none is found. -/
  fresh : Identity

/-- The identity of a node: the one given, else that of the seed, else that of the key file. -/
def resolveIdentity (p : Plan) (d : Disk) (cwd : Location) : Except Error Identity × Disk :=
  match p.identity, p.config.identity.seed with
  | some i, _ => (.ok i, d)
  | none, some seed => (.ok (.ofSeed seed), d)
  | none, none => KeyFile.loadOrKeep d cwd p.config.keyPath p.fresh

/-- Makes the root directory. The empty path is taken to be there. -/
def makeRoot (d : Disk) (cwd : Location) (path : String) : Except Error Unit × Disk :=
  match Path.ofText? path with
  | none => (.ok (), d)
  | some p =>
    match d.makeDirectory cwd p with
    | (true, d) => (.ok (), d)
    | (false, d) => (.error (.io "cannot make the root directory"), d)

/-- The source of the peers to ask. -/
def peerSource (p : Plan) : Except Error PeerSource :=
  match p.peers, p.config.verificationPeers with
  | some as, _ => .ok (.listed as)
  | none, [] => .ok .connected
  | none, texts => (Address.ofTexts texts).map .listed

/-- Binds a node that has an identity, and assembles the rest of it. The node is shut down if it cannot be
given the built-in handlers, and only then. -/
def assemble (m : Machine) (p : Plan) (identity : Identity) : Start :=
  match Address.ofTexts p.config.network.bootstrap with
  | .error e => .failed e none m
  | .ok bootstrap =>
    match bind m p.config.network identity with
    | .error e => .failed e none m
    | .ok (n, m) =>
      match n.registerBuiltins with
      | (.error e, n) => giveUp n.shutDown m e
      | (.ok (), n) =>
        match peerSource p with
        | .error e => giveUp n m e
        | .ok peers => .started { n with office := some ⟨.empty, peers, bootstrap, false, false⟩ } m

/-- Builds a node on a machine and a disk. -/
def build (m : Machine) (d : Disk) (cwd : Location) (p : Plan) : Start × Disk :=
  match makeRoot d cwd p.config.rootDir with
  | (.error e, d) => (.failed e none m, d)
  | (.ok (), d) =>
    match resolveIdentity p d cwd with
    | (.error e, d) => (.failed e none m, d)
    | (.ok identity, d) => (assemble m p identity, d)

/-! ## Debug texts -/

/-- A list of texts in brackets. -/
def listShown (xs : List String) : String := "[" ++ ", ".intercalate xs ++ "]"

/-- How the handle of a node is shown. -/
def shown (n : Node) : String :=
  "NodeHandle \x7b local_peer_id: " ++ n.peerId.shown ++ ", listen_addrs: "
    ++ listShown (n.listening.map (·.text)) ++ ", .. \x7d"

/-- How the multiplexer of a node is shown. -/
def multiplexerShown (n : Node) : String := "Multiplexer \x7b node: " ++ n.shown ++ " \x7d"

/-- How the dispatcher of a node is shown. -/
def dispatcherShown (n : Node) : String :=
  "NetworkDispatcher \x7b node: " ++ n.peerId.shown ++ ", .. \x7d"

end Node

end SealedCustody
