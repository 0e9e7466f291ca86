import SealedCustody.Config
import SealedCustody.Json.Access

/-!
# A configuration in JSON

All settings of a configuration, in the sections and under the keys of its file.
-/

namespace SealedCustody

/-- A setting in JSON. -/
def Toml.Setting.description : Toml.Setting → Json.Value
  | .text s => .string s
  | .count n => .ofNat n
  | .texts ss => .ofTexts ss

/-- A section in JSON. -/
def sectionDescription (settings : List (String × Toml.Setting)) : Json.Value :=
  .ofMembers (settings.map fun (k, s) => (k, s.description))

/-- The network section that is given in JSON. A setting that is absent has its default. -/
def NetworkConfig.ofDescription (v : Json.Value) : NetworkConfig :=
  let d : NetworkConfig := {}
  let count (key : String) (default : Nat) := (v.naturalAt? key).getD default
  { listen := (v.textsAt? "listen").getD d.listen
    bootstrap := (v.textsAt? "bootstrap").getD d.bootstrap
    dialTimeoutSecs := count "dial_timeout_secs" d.dialTimeoutSecs
    streamTimeoutSecs := count "stream_timeout_secs" d.streamTimeoutSecs
    idleConnectionTimeoutSecs := count "idle_connection_timeout_secs" d.idleConnectionTimeoutSecs
    maxMessageBytes := count "max_message_bytes" d.maxMessageBytes
    pingIntervalSecs := count "ping_interval_secs" d.pingIntervalSecs }

/-- The seconds of a dial, of an operation on a stream, of an idle connection and between pings. -/
def NetworkConfig.timeouts (c : NetworkConfig) : List Nat :=
  [c.dialTimeoutSecs, c.streamTimeoutSecs, c.idleConnectionTimeoutSecs, c.pingIntervalSecs]

/-- The identity section in JSON. What is absent is null. -/
def IdentityConfig.description (c : IdentityConfig) : Json.Value :=
  let orNull (s : Option String) : Json.Value := s.elim .null .string
  .ofMembers [("key_file", orNull c.keyFile), ("seed", orNull c.seed)]

/-- A configuration in JSON. -/
def NodeConfig.description (c : NodeConfig) : Json.Value :=
  .ofMembers [("root_dir", .string c.rootDir), ("log_level", .string c.logLevel),
    ("network", sectionDescription c.network.settings), ("identity", c.identity.description),
    ("verification", .ofMembers [("peers", .ofTexts c.verificationPeers)])]

end SealedCustody
