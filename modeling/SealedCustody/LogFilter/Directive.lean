import SealedCustody.LogFilter.Pattern
import SealedCustody.Number.Decimal
import SealedCustody.Text.Alphanumeric
import SealedCustody.Text.Blank
import SealedCustody.Text.Utf8

/-!
# Log directives

A directive is a level; or a target, the name of a span or of a field in brackets, and a level after an
equals sign, each of which may be missing. It is read character by character without the blanks at its
ends, but what is found is cut out of the text with them: blanks in front shift every part to the left,
and a cut that falls into a character breaks the reading off.
-/

namespace SealedCustody

/-- How grave a message is. -/
inductive LogLevel where
  | error
  | warn
  | info
  | debug
  | trace
deriving DecidableEq, Repr

/-- Graver levels come first. -/
def LogLevel.rank : LogLevel → Nat
  | error => 1
  | warn => 2
  | info => 3
  | debug => 4
  | trace => 5

/-- The name of a level in a log. -/
def LogLevel.name : LogLevel → String
  | error => "ERROR"
  | warn => "WARN"
  | info => "INFO"
  | debug => "DEBUG"
  | trace => "TRACE"

/-- A field that a message or span has to have, and the pattern of its value. -/
structure LogField where
  name : String
  value : Option String
deriving DecidableEq, Repr

/-- What stands in one place of a log passes up to a rank. -/
structure LogDirective where
  target : Option String
  span : Option String
  field : Option LogField
  limit : Nat
deriving DecidableEq, Repr

namespace LogDirective

/-- A directive that lets everything through. -/
def everything : LogDirective := ⟨none, none, none, LogLevel.trace.rank⟩

/-- The names of the limits. -/
def limits : List (String × Nat) :=
  [("off", 0), ("error", 1), ("warn", 2), ("info", 3), ("debug", 4), ("trace", 5)]

/-- The limit of a name, in whatever case, or of a number. -/
def limit? (s : String) : Option Nat :=
  match Decimal.unsigned? s with
  | some n => if n ≤ LogLevel.trace.rank then some n else none
  | none => limits.lookup s.toLower

/-- Whether a text is a number after a plus. -/
def isPlusNumber (s : String) : Bool :=
  match s.toList with
  | '+' :: rest =>
    ["inf", "infinity", "nan"].contains (String.ofList rest).toLower || Decimal.isFloat rest
  | _ => false

/-- Reads a field: its name, and a pattern after an equals sign. -/
def field? (s : String) : Option LogField :=
  match Text.split '=' s with
  | name :: value :: _ =>
    if isPlusNumber value || Pattern.isPattern value then some ⟨name, some value⟩ else none
  | name :: [] => some ⟨name, none⟩
  | [] => none

/-- Why a directive is not read. -/
inductive Fault where
  /-- It is no directive. -/
  | refused
  /-- A cut falls into a character. -/
  | broken
deriving DecidableEq, Repr

/-- Whether a text of so many octets may be cut at a place. -/
def isBoundary (text : List UInt8) (i : Nat) : Bool :=
  match text[i]? with
  | some b => b < 0x80 || 0xc0 ≤ b
  | none => i = text.length

/-- What stands between two places. -/
def cut (text : List UInt8) (i j : Nat) : Except Fault String :=
  if isBoundary text i && isBoundary text j then
    match Utf8.text? ((text.take j).drop i) with
    | some s => .ok s
    | none => .error .broken
  else .error .broken

/-- What is being read, and where it begins. -/
inductive Place where
  | start
  /-- A level or a target. -/
  | target (i : Nat)
  | span (i : Nat)
  | field (i : Nat)
  /-- Behind a field. -/
  | afterField
  /-- Behind the brackets. -/
  | afterSpan
  | level (i : Nat)
deriving DecidableEq, Repr

/-- One character, at some place of the text. -/
def step (text : List UInt8) (d : LogDirective) (i : Nat) (c : Char) :
    Place → Except Fault (LogDirective × Place)
  | .start =>
    if c = '[' then .ok (d, .span (i + 1))
    else if ['-', ':', '_'].contains c || Text.isAlphanumeric c then .ok (d, .target i)
    else .error .refused
  | .target first =>
    if c = '=' then do return ({ d with target := ← cut text first i }, .level (i + 1))
    else if c = '[' then do return ({ d with target := ← cut text first i }, .span (i + 1))
    else .ok (d, .target first)
  | .span first =>
    if c = ']' then do return ({ d with span := ← cut text first i }, .afterSpan)
    else if c = '\x7b' then do
      let name ← cut text first i
      return ({ d with span := if name = "" then none else some name }, .field (i + 1))
    else .ok (d, .span first)
  | .field first =>
    if c = '\x7d' then do
      let field ← cut text first i
      match (if field = "" then none else field? field) with
      | some field => .ok ({ d with field := some field }, .afterField)
      | none => .error .refused
    else .ok (d, .field first)
  | .afterField => if c = ']' then .ok (d, .afterSpan) else .error .refused
  | .afterSpan => if c = '=' then .ok (d, .level (i + 1)) else .error .refused
  | .level first => .ok (d, .level first)

/-- The directive at the end of the text. -/
def finish (text : List UInt8) (d : LogDirective) : Place → Except Fault LogDirective
  | .target first => do
    let s ← cut text first text.length
    match limit? s with
    | some limit => .ok { d with limit }
    | none => .ok { d with target := s }
  | .level first => do
    let s ← cut text first text.length
    if s = "" then .ok d
    else match limit? s with
      | some limit => .ok { d with limit }
      | none => .error .refused
  | .afterSpan => .ok d
  | .start | .span _ | .field _ | .afterField => .error .refused

/-- Reads on from some place with the characters that are left. -/
def readOn (text : List UInt8) (d : LogDirective) (i : Nat) (place : Place) :
    List Char → Except Fault LogDirective
  | [] => finish text d place
  | c :: rest => do
    let (d, place) ← step text d i c place
    readOn text d (i + c.utf8Size) place rest

/-- Reads a directive. One without a level lets everything through. -/
def ofText (s : String) : Except Fault LogDirective :=
  readOn (Utf8.octets s) everything 0 .start (Text.trimmed s.toList)

end LogDirective

end SealedCustody
