import SealedCustody.CommandLine
import SealedCustody.LogFilter
import SealedCustody.Node

/-!
# The daemon

What a run of the daemon does, from its arguments and environment up to the interrupt: it reads its
settings, builds a node, says where the node can be dialed, waits, and says goodbye. A run that fails
before it waits shows nothing but its exit status.
-/

namespace SealedCustody

namespace Daemon

/-- The target of the daemon's own messages. -/
def target : String := "dsn_node"

/-- What stands before an address where the node can be dialed. -/
def dialHere : String := "Dial this node at"

/-- What is said at the end. -/
def goodbye : String := "Goodbye!"

/-- A message of a part of the daemon, with the fields it has besides its text. -/
def note (level : LogLevel) (part text : String) (fields : List String) : LogMessage :=
  ⟨level, target ++ part, "message" :: fields, none, text⟩

/-- The target of what the swarm of connections logs. -/
def swarmTarget : String := "libp2p_swarm"

/-- The span in which the swarm works. -/
def swarmPoll : LogSpan := ⟨.debug, swarmTarget, "Swarm::poll"⟩

/-- What is said about the node's identity. -/
def identityMessages (config : NodeConfig) (keyFound : Bool) : List LogMessage :=
  if config.identity.seed.isSome then
    [note .warn "::node" "Deriving node identity from a seed; do not use outside test networks" []]
  else if keyFound then [note .info "::identity" "Loaded existing node identity" ["peer_id"]]
  else [note .info "::identity" "Generated new node identity" ["peer_id", "path"]]

/-- What is said when the daemon dials an address to stay connected to. On its own machine there is
nobody but the node itself. -/
def dialMessages (node : Node) (a : Address) : List LogMessage :=
  let peer := a.splitPeer.1
  let attempt : List LogMessage :=
    if peer = some node.peerId then []
    else
      let target := if peer.isSome then "peer" else "target"
      [note .debug "::transport::driver" "Dialing" [target, "connection_id"],
        ⟨.debug, swarmTarget, "message" :: peer.toList.map fun _ => "peer", some swarmPoll,
          "Connection attempt failed"⟩,
        note .warn "::transport::driver" "Dial failed" [target, "error"]]
  attempt ++ [note .debug "::node" "Bootstrap dial failed" ["addr", "error", "retry_in"]]

/-- The messages of a run, whether or not the log lets them through. -/
def messages (config : NodeConfig) (keyFound : Bool) (node : Node) : List LogMessage :=
  let bootstrap := (node.office.map (·.bootstrap)).getD []
  [note .info "" "dsn-node v0.1.0" [], note .info "::node" "Building dsn-node" []]
    ++ identityMessages config keyFound
    ++ [⟨.info, swarmTarget, ["local_peer_id"], none, ""⟩]
    ++ node.listening.map (fun a => ⟨.debug, swarmTarget, ["message", "listener", "address"],
      some swarmPoll, "New listener address " ++ a.text⟩)
    ++ node.listening.map (fun a =>
      note .info "::transport::handle" ("Listening " ++ a.text) ["address"])
    ++ [note .debug "::protocol" "Registered protocol handler" ["protocol"],
      note .info "::node" "Node built" ["peer_id"]]
    ++ node.dialable.map (fun a => note .info "" (dialHere ++ " " ++ a.text) ["address"])
    ++ [note .info "::node" "Starting dsn-node" ["peer_id"],
      note .info "::node" "Node running, waiting for shutdown signal" []]
    ++ bootstrap.flatMap (dialMessages node)
    ++ [note .info "::node" "Ctrl-C received, initiating shutdown" [],
      note .info "::transport::driver" "Swarm driver stopped" [],
      note .info "::node" "Node shutdown complete" [], note .info "" goodbye []]

/-- A line of the log. -/
def line (m : LogMessage) : CommandLine.LogFormat → String
  | .text => m.level.name ++ " " ++ m.target ++ ": " ++ m.text
  | .json => (Json.Value.object [("fields", .object [("message", .string m.text)]),
      ("level", .string m.level.name), ("target", .string m.target)]).render

/-- Why a run ends before it waits. -/
inductive Stop where
  | arguments (fault : CommandLine.Fault)
  /-- The reading of the log filter broke off. -/
  | brokenFilter
  | failed (error : Error)
deriving DecidableEq, Repr

/-- The exit status of a run that ends before it waits. -/
def Stop.exit : Stop → Nat
  | arguments .displayHelp | arguments .displayVersion => 0
  | arguments _ => 2
  | brokenFilter => 101
  | failed _ => 1

/-- What is said of a run that ends before it waits. -/
def Stop.message : Stop → String
  | arguments fault => fault.message
  | brokenFilter => "log filter: a cut falls into a character"
  | failed error => error.message

/-- What a run shows. -/
structure Report where
  /-- Why the run ended before it came to wait for the interrupt. -/
  stop : Option Stop
  /-- The log, when the run came to wait. -/
  log : List LogMessage
  /-- How log lines are written. -/
  format : CommandLine.LogFormat
  /-- The addresses where the node can be dialed. -/
  dialable : List Address
deriving Repr

/-- A run that ends before it waits. -/
def Report.early (stop : Stop) : Report := ⟨some stop, [], .text, []⟩

/-- Whether the run came to wait for the interrupt. -/
def Report.ran (r : Report) : Bool := r.stop.isNone

/-- The exit status. -/
def Report.exit (r : Report) : Nat := r.stop.elim 0 Stop.exit

/-- Whether a message was logged. -/
def Report.hasLogged (r : Report) (text : String) : Bool :=
  r.log.any fun m => m.target = target && m.text = text

/-- The addresses that were logged as where the node can be dialed. -/
def Report.logged (r : Report) : List Address :=
  r.dialable.filter fun a => r.hasLogged (dialHere ++ " " ++ a.text)

/-- The filter of the log: that of the environment if it can be read, else the log level. -/
def filter (environment : String → Option String) (given : CommandLine.Given) :
    Except LogDirective.Fault LogFilter :=
  match (environment "RUST_LOG").map LogFilter.ofText with
  | some (.ok f) => .ok f
  | some (.error .broken) => .error .broken
  | some (.error .refused) | none => LogFilter.ofTextLossy (CommandLine.logLevel given)

/-- The root directory where none is given: that of the user's data. -/
def home (environment : String → Option String) : String :=
  match (environment "XDG_DATA_HOME").filter (·.startsWith "/"),
      (environment "HOME").filter (· ≠ "") with
  | some data, _ => joinPath data "dsn"
  | none, some user => joinPath user ".local/share/dsn"
  | none, none => ".dsn"

/-- The content of the file at a path. -/
def contentAt (d : Disk) (cwd : Location) (path : String) : Option (List UInt8) :=
  (Path.ofText? path).bind (d.read? cwd)

/-- The paths that a run looks at: its configuration file, and the key file that the configuration
names. -/
def paths (d : Disk) (cwd : Location) (home : String) (environment : String → Option String)
    (args : List String) : List String :=
  match CommandLine.read environment args with
  | .error _ => []
  | .ok given =>
    (given .config).head?.toList ++
      match CommandLine.config home (contentAt d cwd) given with
      | .error _ => []
      | .ok config => [config.keyPath]

/-- A run of the daemon that is interrupted once it waits. `home` is the root directory where none is
given, and `fresh` the identity that is kept where none is found. -/
def run (m : Machine) (d : Disk) (cwd : Location) (home : String) (fresh : Identity)
    (environment : String → Option String) (args : List String) : Report × Disk :=
  match CommandLine.read environment args with
  | .error f => (.early (.arguments f), d)
  | .ok given =>
    match filter environment given, CommandLine.config home (contentAt d cwd) given with
    | .error _, _ => (.early .brokenFilter, d)
    | .ok _, .error e => (.early (.failed e), d)
    | .ok filter, .ok config =>
      let keyFound := (KeyFile.find? d cwd config.keyPath).isSome
      match Node.build m d cwd { config, identity := none, peers := none, fresh } with
      | (.failed e .., d) => (.early (.failed e), d)
      | (.started node _, d) =>
        ({ stop := none, format := CommandLine.logFormat given
           log := (messages config keyFound node).filter filter.passes
           dialable := node.dialable }, d)

end Daemon

end SealedCustody
