import SealedCustody.Config
import SealedCustody.Number.Decimal

/-!
# The command line

Options set parts of the configuration. An option that is not given may be set by a variable of the
environment. The value of an option that stands in an argument of its own is looked at only when the
next option begins, so that an argument that is not known is reported before it.
-/

namespace SealedCustody.CommandLine

/-- Why arguments are refused, or what is shown instead of running. -/
inductive Fault where
  | unknownArgument
  /-- A value is missing, empty, or none of those allowed. -/
  | invalidValue
  /-- A value is not the number that it has to be. -/
  | valueValidation
  | tooManyValues
  /-- An option that is given once only is given again. -/
  | argumentConflict
  | displayHelp
  | displayVersion
deriving DecidableEq, Repr

/-- The name of the kind of a fault. -/
def Fault.kind : Fault → String
  | unknownArgument => "UnknownArgument"
  | invalidValue => "InvalidValue"
  | valueValidation => "ValueValidation"
  | tooManyValues => "TooManyValues"
  | argumentConflict => "ArgumentConflict"
  | displayHelp => "DisplayHelp"
  | displayVersion => "DisplayVersion"

/-- What is said of a fault. -/
def Fault.message : Fault → String
  | unknownArgument => "unexpected argument"
  | invalidValue => "missing or unknown value"
  | valueValidation => "not a number in range"
  | tooManyValues => "unexpected value"
  | argumentConflict => "option given more than once"
  | displayHelp => "dsn-node: custody node for the decentralized verification network"
  | displayVersion => "dsn-node 0.1.0"

/-- How log lines are written. -/
inductive LogFormat where
  | text
  | json
deriving DecidableEq, Repr, Inhabited

/-- The name of a format. -/
def LogFormat.name : LogFormat → String
  | text => "text"
  | json => "json"

/-- An option that takes a value. -/
inductive Opt where
  | rootDir | listen | port | bootstrap | verificationPeers | keyFile | seed | dialTimeout | logLevel
  | logFormat | config
deriving DecidableEq, Repr

namespace Opt

/-- All options, in the order in which the environment is looked up. -/
def all : List Opt := [rootDir, listen, port, bootstrap, verificationPeers, keyFile, seed, dialTimeout,
  logLevel, logFormat, config]

/-- The name after two dashes. -/
def long : Opt → String
  | rootDir => "root-dir"
  | listen => "listen"
  | port => "port"
  | bootstrap => "bootstrap"
  | verificationPeers => "verification-peers"
  | keyFile => "key-file"
  | seed => "seed"
  | dialTimeout => "dial-timeout"
  | logLevel => "log-level"
  | logFormat => "log-format"
  | config => "config"

/-- The letter after one dash. -/
def short? : Opt → Option Char
  | listen => some 'l'
  | port => some 'p'
  | bootstrap => some 'b'
  | config => some 'c'
  | _ => none

/-- The variable of the environment that stands in for the option. -/
def standIn? : Opt → Option String
  | rootDir => some "DSN_ROOT_DIR"
  | listen => some "DSN_LISTEN"
  | port => some "DSN_PORT"
  | bootstrap => some "DSN_BOOTSTRAP_PEERS"
  | verificationPeers => some "DSN_VERIFICATION_PEERS"
  | keyFile => some "DSN_KEY_FILE"
  | seed => some "DSN_SEED"
  | dialTimeout => some "DSN_DIAL_TIMEOUT"
  | logLevel => some "RUST_LOG"
  | logFormat => some "DSN_LOG_FORMAT"
  | config => none

/-- Whether the option collects the items of all its values. -/
def isList : Opt → Bool
  | listen | bootstrap | verificationPeers => true
  | _ => false

end Opt

/-! ## Values -/

/-- A port. Zero may have a minus in front. -/
def port? (s : String) : Option Nat :=
  let n := match s.toList with
    | '-' :: rest => (Decimal.digits? rest).filter (· = 0)
    | _ => Decimal.unsigned? s
  n.filter (· < UInt16.size)

/-- The format of a name. -/
def logFormat? (s : String) : Option LogFormat :=
  if s = "text" then some .text else if s = "json" then some .json else none

/-- What is wrong with the value of an option, if anything. -/
def fault? (o : Opt) (s : String) : Option Fault :=
  match o with
  | .rootDir | .keyFile | .config => if s.isEmpty then some .invalidValue else none
  | .port => if (port? s).isNone then some .valueValidation else none
  | .dialTimeout =>
    if ((Decimal.unsigned? s).filter (· < UInt64.size)).isNone then some .valueValidation else none
  | .logFormat => if (logFormat? s).isNone then some .invalidValue else none
  | _ => none

/-- The items of a value: those between commas for a list, else the value itself. -/
def items (o : Opt) (s : String) : List String :=
  if o.isList then s.splitOn "," else [s]

/-! ## Arguments -/

/-- The values that options have been given. -/
abbrev Given := Opt → List String

/-- What has been read: the values, and the last option with the value in the argument behind it, if
that has not been looked at. -/
structure Progress where
  given : Given
  pending : Option (Opt × Option String)

/-- Gives an option a value. -/
def give (g : Given) (o : Opt) (s : String) : Except Fault Given :=
  if !o.isList && !(g o).isEmpty then .error .argumentConflict
  else match (items o s).findSome? (fault? o) with
    | some f => .error f
    | none => .ok fun o' => if o' = o then g o ++ items o s else g o'

/-- Looks at the value of the last option. -/
def settle (p : Progress) : Except Fault Given :=
  match p.pending with
  | none => .ok p.given
  | some (_, none) => .error .invalidValue
  | some (o, some s) => give p.given o s

/-- Begins an option, whose value stands in the same argument or in the next one. -/
def begin (p : Progress) (o : Opt) (attached : Option String) : Except Fault Progress := do
  let g ← settle p
  match attached with
  | some s => return ⟨← give g o s, none⟩
  | none => return ⟨g, some (o, none)⟩

/-- Ends the reading with what is shown instead, if the value of the last option is right. -/
def showInstead (p : Progress) (f : Fault) : Except Fault Progress := do
  let _ ← settle p
  throw f

/-- Reads an argument with two dashes. -/
def readLong (p : Progress) (body : List Char) : Except Fault Progress :=
  let name := String.ofList (body.takeWhile (· != '='))
  let attached := match body.dropWhile (· != '=') with
    | [] => none
    | _ :: rest => some (String.ofList rest)
  match Opt.all.find? (·.long = name) with
  | some o => begin p o attached
  | none =>
    if name = "help" then
      if attached.isSome then .error .tooManyValues else showInstead p .displayHelp
    else if name = "version" then
      if attached.isSome then .error .tooManyValues else showInstead p .displayVersion
    else .error .unknownArgument

/-- Reads an argument with one dash. -/
def readShort (p : Progress) (letter : Char) (rest : List Char) : Except Fault Progress :=
  match Opt.all.find? (·.short? = some letter) with
  | some o =>
    begin p o (match rest with
      | [] => none
      | '=' :: value => some (String.ofList value)
      | value => some (String.ofList value))
  | none =>
    if letter = 'h' then showInstead p .displayHelp
    else if letter = 'V' then showInstead p .displayVersion
    else .error .unknownArgument

/-- Reads all arguments. Nothing may follow two dashes alone. -/
def readArguments (p : Progress) : List String → Except Fault Given
  | [] => settle p
  | arg :: rest =>
    match arg.toList with
    | ['-', '-'] => if rest.isEmpty then settle p else .error .unknownArgument
    | '-' :: '-' :: body => do readArguments (← readLong p body) rest
    | '-' :: letter :: body => do readArguments (← readShort p letter body) rest
    | _ =>
      match p.pending with
      | some (o, none) => readArguments { p with pending := some (o, some arg) } rest
      | _ => .error .unknownArgument

/-- Gives the options that are absent the values of the environment. -/
def readVariables (environment : String → Option String) (g : Given) : Except Fault Given :=
  Opt.all.foldlM (fun g o =>
    match o.standIn?.bind environment with
    | some s => if (g o).isEmpty then give g o s else .ok g
    | none => .ok g) g

/-- Reads arguments and environment. -/
def read (environment : String → Option String) (args : List String) : Except Fault Given := do
  readVariables environment (← readArguments ⟨fun _ => [], none⟩ args)

/-! ## The configuration -/

/-- How log lines are written; text unless told otherwise. -/
def logFormat (g : Given) : LogFormat := ((g .logFormat).head?.bind logFormat?).getD .text

/-- The log level; `info` unless told otherwise. -/
def logLevel (g : Given) : String := (g .logLevel).headD "info"

/-- The configuration: that of the file, if one is named, changed by the other options. The log level
is never that of the file. -/
def config (home : String) (contentOf : String → Option (List UInt8)) (g : Given) :
    Except Error NodeConfig := do
  let base ← match (g .config).head? with
    | some path => NodeConfig.ofFile home (contentOf path)
    | none => .ok { rootDir := home }
  let net := base.network
  let listen := match g .listen, (g .port).head?.bind port? with
    | [], some p => ["/ip4/0.0.0.0/tcp/" ++ toString p]
    | [], none => net.listen
    | addrs, _ => addrs
  return {
    rootDir := (g .rootDir).headD base.rootDir
    logLevel := logLevel g
    network := { net with
      listen
      bootstrap := if (g .bootstrap).isEmpty then net.bootstrap else g .bootstrap
      dialTimeoutSecs := ((g .dialTimeout).head?.bind Decimal.unsigned?).getD net.dialTimeoutSecs }
    identity := {
      keyFile := (g .keyFile).head?.or base.identity.keyFile
      seed := (g .seed).head?.or base.identity.seed }
    verificationPeers :=
      if (g .verificationPeers).isEmpty then base.verificationPeers else g .verificationPeers }

end SealedCustody.CommandLine
