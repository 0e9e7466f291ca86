import SealedCustody.Error
import SealedCustody.Text.Utf8
import SealedCustody.Toml.Reader
import SealedCustody.Toml.Writer

/-!
# A node's configuration

Every setting has a default, so that an empty file is a configuration. Keys that are not known are
ignored; a key of the wrong type makes the whole file invalid. A section may also be given as the list
of its settings in order.
-/

namespace SealedCustody

/-- How a node reaches others and is reached. -/
structure NetworkConfig where
  /-- Addresses to listen on, each bound by itself. -/
  listen : List String := ["/ip4/0.0.0.0/tcp/4001"]
  /-- Addresses to stay connected to. -/
  bootstrap : List String := []
  /-- How long a dial may take. -/
  dialTimeoutSecs : Nat := 10
  /-- How long one operation on a stream may take. -/
  streamTimeoutSecs : Nat := 10
  /-- How long a connection without streams is kept. -/
  idleConnectionTimeoutSecs : Nat := 60
  /-- The longest message in either direction. -/
  maxMessageBytes : Nat := 1048576
  /-- How long after one ping the next is sent. -/
  pingIntervalSecs : Nat := 15
deriving DecidableEq, Repr, Inhabited

/-- Where a node's identity comes from: its seed, else its key file, else the key file in its root
directory. -/
structure IdentityConfig where
  keyFile : Option String := none
  seed : Option String := none
deriving DecidableEq, Repr, Inhabited

/-- A node's configuration. -/
structure NodeConfig where
  /-- The directory that holds the node's files. -/
  rootDir : String
  logLevel : String := "info"
  network : NetworkConfig := {}
  identity : IdentityConfig := {}
  /-- Peers to ask when a request is accepted, in order. -/
  verificationPeers : List String := []
deriving DecidableEq, Repr, Inhabited

/-- The name of the key file in a root directory. -/
def keyFileName : String := "node_key"

/-- A name inside a directory. -/
def joinPath (dir name : String) : String :=
  if dir.isEmpty ∨ dir.endsWith "/" then dir ++ name else dir ++ "/" ++ name

/-- The file that holds the node's key. -/
def NodeConfig.keyPath (c : NodeConfig) : String :=
  c.identity.keyFile.getD (joinPath c.rootDir keyFileName)

/-! ## Reading -/

namespace Toml.Item

/-- A text. -/
def text? : Item → Option String
  | .string s => some s
  | _ => none

/-- A number that is not negative. -/
def count? : Item → Option Nat
  | .integer (.ofNat n) => some n
  | _ => none

/-- A list of texts. -/
def texts? : Item → Option (List String)
  | .array items => items.mapM text?
  | _ => none

/-- The settings of a section, in the order of their keys: those of a table by name, those of a list
by position. A date holds settings of no known name. -/
def section? (keys : List String) : Item → Option (List (Option Item))
  | .inlined es | .table _ es => some (keys.map (Entries.get? · es))
  | .array items => some ((List.range keys.length).map (items[·]?))
  | .tables ts => some ((List.range keys.length).map ((ts.reverse.map inlined)[·]?))
  | .date => some (keys.map fun _ => none)
  | _ => none

end Toml.Item

/-- The value of a setting, or its default. -/
def settingOr {α : Type} (read : Toml.Item → Option α) (fallback : α) : Option Toml.Item → Option α
  | none => some fallback
  | some i => read i

namespace NetworkConfig

/-- The keys of the section. -/
def keys : List String := ["listen", "bootstrap", "dial_timeout_secs", "stream_timeout_secs",
  "idle_connection_timeout_secs", "max_message_bytes", "ping_interval_secs"]

/-- Reads the section. -/
def ofItem? (i : Toml.Item) : Option NetworkConfig := do
  match ← i.section? keys with
  | [listen, bootstrap, dial, stream, idle, bytes, ping] =>
    let d : NetworkConfig := {}
    some {
      listen := ← settingOr (·.texts?) d.listen listen
      bootstrap := ← settingOr (·.texts?) d.bootstrap bootstrap
      dialTimeoutSecs := ← settingOr (·.count?) d.dialTimeoutSecs dial
      streamTimeoutSecs := ← settingOr (·.count?) d.streamTimeoutSecs stream
      idleConnectionTimeoutSecs := ← settingOr (·.count?) d.idleConnectionTimeoutSecs idle
      maxMessageBytes := ← settingOr (·.count?) d.maxMessageBytes bytes
      pingIntervalSecs := ← settingOr (·.count?) d.pingIntervalSecs ping }
  | _ => none

/-- The settings of the section. -/
def settings (c : NetworkConfig) : List (String × Toml.Setting) :=
  keys.zip [.texts c.listen, .texts c.bootstrap, .count c.dialTimeoutSecs, .count c.streamTimeoutSecs,
    .count c.idleConnectionTimeoutSecs, .count c.maxMessageBytes, .count c.pingIntervalSecs]

end NetworkConfig

namespace IdentityConfig

/-- Reads the section. -/
def ofItem? (i : Toml.Item) : Option IdentityConfig := do
  match ← i.section? ["key_file", "seed"] with
  | [file, seed] => some {
      keyFile := ← settingOr (fun i => i.text?.map some) none file
      seed := ← settingOr (fun i => i.text?.map some) none seed }
  | _ => none

/-- The settings of the section; what is absent is left out. -/
def settings (c : IdentityConfig) : List (String × Toml.Setting) :=
  (c.keyFile.map fun s => ("key_file", .text s)).toList
    ++ (c.seed.map fun s => ("seed", .text s)).toList

end IdentityConfig

namespace NodeConfig

/-- Reads the peers of the verification section. -/
def verificationPeers? (i : Toml.Item) : Option (List String) := do
  match ← i.section? ["peers"] with
  | [peers] => settingOr (·.texts?) [] peers
  | _ => none

/-- Reads a document; `home` is the root directory where none is given. -/
def ofEntries? (home : String) (doc : Toml.Entries) : Option NodeConfig := do
  let get (key : String) := Toml.Entries.get? key doc
  some {
    rootDir := ← settingOr (·.text?) home (get "root_dir")
    logLevel := ← settingOr (·.text?) "info" (get "log_level")
    network := ← settingOr NetworkConfig.ofItem? {} (get "network")
    identity := ← settingOr IdentityConfig.ofItem? {} (get "identity")
    verificationPeers := ← settingOr verificationPeers? [] (get "verification") }

/-- Reads the text of a configuration file. -/
def ofText (home s : String) : Except Error NodeConfig :=
  match (Toml.ofText? s).bind (ofEntries? home) with
  | some c => .ok c
  | none => .error (.config "not a configuration")

/-- Reads the content of a configuration file, if there is one. -/
def ofFile (home : String) (content : Option (List UInt8)) : Except Error NodeConfig :=
  match content with
  | none => .error (.io "no such file")
  | some bytes =>
    match Utf8.text? bytes with
    | none => .error (.io "not valid UTF-8")
    | some s => ofText home s

/-! ## Writing -/

/-- The text of a configuration file. -/
def toText (c : NodeConfig) : Except Error String :=
  match Toml.render? [("root_dir", .text c.rootDir), ("log_level", .text c.logLevel)]
      [("network", c.network.settings), ("identity", c.identity.settings),
        ("verification", [("peers", .texts c.verificationPeers)])] with
  | some s => .ok s
  | none => .error (.config "number out of range")

end NodeConfig

end SealedCustody
