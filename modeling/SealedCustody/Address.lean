import SealedCustody.Address.Ip
import SealedCustody.PeerId
import SealedCustody.Text.Blank
import SealedCustody.Text.Utf8

/-!
# Network addresses

An address is a list of components, each a name and, for most names, an argument, all written after a
slash. A component that names a peer may stand anywhere. `Address.ofText?` reads the written form and
`Address.text` writes it; reading normalises numbers and internet addresses.
-/

namespace SealedCustody

/-- The names that stand without an argument. -/
inductive PlainName where
  | tls | noise | http | https | quic | quicV1 | webtransport | udt | utp | circuit | webrtc
  | webrtcDirect | websocketStar | webrtcStar | starDirect | stardust
deriving DecidableEq, Repr

/-- The names whose argument is any text. -/
inductive TextName where
  | dns | dns4 | dns6 | dnsaddr | unix | ip6zone | sni
deriving DecidableEq, Repr

/-- The names whose argument is a port. -/
inductive PortName where
  | tcp | udp | dccp | sctp
deriving DecidableEq, Repr

/-- One component of an address. A web socket has a path, which is `/` unless it is given. -/
inductive Component where
  | plain (name : PlainName)
  | text (name : TextName) (argument : String)
  | port (name : PortName) (number : UInt16)
  | ip4 (ip : Ip4)
  | ip6 (ip : Ip6)
  | memory (number : UInt64)
  | cidr (bits : UInt8)
  | webSocket (secure : Bool) (path : String)
  | peer (id : PeerId)
deriving DecidableEq, Repr

/-- An address: its components in order. -/
abbrev Address := List Component

/-! ## Writing -/

/-- The name of a component without an argument. -/
def PlainName.name : PlainName → String
  | tls => "tls"
  | noise => "noise"
  | http => "http"
  | https => "https"
  | quic => "quic"
  | quicV1 => "quic-v1"
  | webtransport => "webtransport"
  | udt => "udt"
  | utp => "utp"
  | circuit => "p2p-circuit"
  | webrtc => "webrtc"
  | webrtcDirect => "webrtc-direct"
  | websocketStar => "p2p-websocket-star"
  | webrtcStar => "p2p-webrtc-star"
  | starDirect => "p2p-webrtc-direct"
  | stardust => "p2p-stardust"

/-- All names without an argument. -/
def PlainName.all : List PlainName :=
  [tls, noise, http, https, quic, quicV1, webtransport, udt, utp, circuit, webrtc, webrtcDirect,
    websocketStar, webrtcStar, starDirect, stardust]

/-- The name of a component with a text. -/
def TextName.name : TextName → String
  | dns => "dns"
  | dns4 => "dns4"
  | dns6 => "dns6"
  | dnsaddr => "dnsaddr"
  | unix => "unix"
  | ip6zone => "ip6zone"
  | sni => "sni"

/-- All names with a text. -/
def TextName.all : List TextName := [dns, dns4, dns6, dnsaddr, unix, ip6zone, sni]

/-- The name of a component with a port. -/
def PortName.name : PortName → String
  | tcp => "tcp"
  | udp => "udp"
  | dccp => "dccp"
  | sctp => "sctp"

/-- All names with a port. -/
def PortName.all : List PortName := [tcp, udp, dccp, sctp]

namespace Percent

/-- Whether an octet of a path stands for itself. -/
def isPlain (b : UInt8) : Bool :=
  0x20 < b && b < 0x7f
    && !("%/\x60?\x7b\x7d\"#<>".toList.map fun c => c.toNat.toUInt8).contains b

/-- An octet of a path as it is written. -/
def octet (b : UInt8) : List Char :=
  if isPlain b then [Char.ofNat b.toNat] else '%' :: (Hex.octet b).map Char.toUpper

/-- A path with every octet that does not stand for itself escaped. -/
def encode (s : String) : String := String.ofList ((Utf8.octets s).flatMap octet)

/-- The octets of a path; a percent sign without two digits stands for itself. -/
def octets : List UInt8 → List UInt8
  | [] => []
  | 0x25 :: hi :: lo :: rest =>
    match Hex.value? (Char.ofNat hi.toNat), Hex.value? (Char.ofNat lo.toNat) with
    | some h, some l => (h * 16 + l).toUInt8 :: octets rest
    | _, _ => 0x25 :: octets (hi :: lo :: rest)
  | b :: rest => b :: octets rest

/-- The path that an escaped text gives. -/
def decode? (s : String) : Option String := Utf8.text? (octets (Utf8.octets s))

end Percent

/-- A component as it is written. -/
def Component.written : Component → String
  | plain n => "/" ++ n.name
  | text n s => "/" ++ n.name ++ "/" ++ s
  | port n p => "/" ++ n.name ++ "/" ++ toString p.toNat
  | ip4 ip => "/ip4/" ++ ip.text
  | ip6 ip => "/ip6/" ++ ip.text
  | memory n => "/memory/" ++ toString n.toNat
  | cidr n => "/ipcidr/" ++ toString n.toNat
  | webSocket secure path =>
    if path = "/" then (if secure then "/wss" else "/ws")
    else (if secure then "/x-parity-wss/" else "/x-parity-ws/") ++ Percent.encode path
  | peer p => "/p2p/" ++ p.text

/-- Whether a component names a peer. -/
def Component.isPeer : Component → Bool
  | peer _ => true
  | _ => false

namespace Address

/-- The text of an address. -/
def text (a : Address) : String := String.join (a.map Component.written)

/-! ## Reading -/

/-- Why a text is no address. -/
inductive Fault where
  | empty
  | noSlash
  | missingArgument
  | unknownName (name : String)
  | badArgument (name argument : String)
deriving DecidableEq, Repr

/-- The text of a fault. -/
def Fault.message : Fault → String
  | empty => "empty address"
  | noSlash => "invalid multiaddr"
  | missingArgument => "invalid protocol string"
  | unknownName name => "unknown protocol string: " ++ name
  | badArgument name argument => "failed to parse: " ++ name ++ " " ++ argument

/-- A number below a bound: decimal digits after an optional plus sign. -/
def natural? (bound : Nat) (s : String) : Option Nat :=
  let ds := match s.toList with
    | '+' :: rest => rest
    | cs => cs
  if ds.isEmpty ∨ !ds.all (fun c => (Ip.decimal? c).isSome) then none
  else
    let n := (ds.filterMap Ip.decimal?).foldl (fun n d => n * 10 + d) 0
    if n < bound then some n else none

/-- How the argument of a name is read, for a name that takes one. -/
def argument? (name : String) : Option (String → Option Component) :=
  match PortName.all.find? (·.name = name), TextName.all.find? (·.name = name) with
  | some n, _ => some fun s => (natural? UInt16.size s).map fun p => .port n p.toUInt16
  | _, some n => some fun s => some (.text n s)
  | none, none =>
    if name = "ip4" then some fun s => (Ip4.ofText? s).map .ip4
    else if name = "ip6" then some fun s => (Ip6.ofText? s).map .ip6
    else if name = "p2p" ∨ name = "ipfs" then some fun s => (PeerId.ofText? s).map .peer
    else if name = "memory" then some fun s => (natural? UInt64.size s).map fun n => .memory n.toUInt64
    else if name = "ipcidr" then some fun s => (natural? UInt8.size s).map fun n => .cidr n.toUInt8
    else if name = "x-parity-ws" then some fun s => (Percent.decode? s).map (.webSocket false)
    else if name = "x-parity-wss" then some fun s => (Percent.decode? s).map (.webSocket true)
    else none

/-- The component of a name that takes no argument. -/
def plain? (name : String) : Option Component :=
  match PlainName.all.find? (·.name = name) with
  | some n => some (.plain n)
  | none =>
    if name = "ws" then some (.webSocket false "/")
    else if name = "wss" then some (.webSocket true "/")
    else none

/-- Reads components from the parts between slashes. -/
def components : List String → Except Fault Address
  | [] => .ok []
  | [name] =>
    match argument? name, plain? name with
    | some _, _ => .error .missingArgument
    | none, some c => .ok [c]
    | none, none => .error (.unknownName name)
  | name :: argument :: rest =>
    match argument? name, plain? name with
    | some read, _ =>
      match read argument with
      | some c => (components rest).map (c :: ·)
      | none => .error (.badArgument name argument)
    | none, some c => (components (argument :: rest)).map (c :: ·)
    | none, none => .error (.unknownName name)

/-- The address that a text without blanks at its ends gives. -/
def read (s : String) : Except Fault Address :=
  match Text.split '/' s with
  | "" :: parts => components parts
  | _ => .error .noSlash

/-! ## The peer of an address -/

/-- The first peer that an address names. -/
def peer? (a : Address) : Option PeerId :=
  a.findSome? fun
    | .peer p => some p
    | _ => none

/-- The address without the components that name a peer. -/
def bare (a : Address) : Address := a.filter fun c => !c.isPeer

/-- The peer of an address, and the address without it. -/
def splitPeer (a : Address) : Option PeerId × Address := (a.peer?, a.bare)

/-- The address with a peer appended, unless it names one. -/
def withPeer (a : Address) (p : PeerId) : Address :=
  match a.splitPeer with
  | (some _, _) => a
  | (none, bare) => bare ++ [.peer p]

end Address

end SealedCustody
