import SealedCustody.Error

/-!
# Protocol identifiers

An identifier is a slash, at least one name, each followed by a slash, and a version of three decimal
numbers with dots between them. A name is any text without a slash that is not empty.
-/

namespace SealedCustody

/-- The parts before the last slash and the part after it. -/
def splitLast {α : Type} : List α → Option (List α × α)
  | [] => none
  | [x] => some ([], x)
  | x :: rest => (splitLast rest).map fun (init, last) => (x :: init, last)

namespace ProtocolId

/-- Whether a text is a number of a version: digits, and at least one. -/
def isNumber (cs : List Char) : Bool := !cs.isEmpty && cs.all fun c => '0' ≤ c && c ≤ '9'

/-- Whether a text is a version: three numbers. -/
def isVersion (cs : List Char) : Bool :=
  let parts := Text.splitAt '.' cs
  parts.length == 3 && parts.all isNumber

/-- Whether a text is an identifier. -/
def isVersioned (cs : List Char) : Bool :=
  match cs with
  | '/' :: rest =>
    match splitLast (Text.splitAt '/' rest) with
    | some (names, version) =>
      !names.isEmpty && names.all (fun name => !name.isEmpty) && isVersion version
    | none => false
  | _ => false

end ProtocolId

/-- The identifier of a protocol. -/
structure ProtocolId where
  text : String
deriving DecidableEq, Repr, Inhabited

namespace ProtocolId

instance : ToString ProtocolId := ⟨text⟩

/-- The identifier that a text is. -/
def ofText (s : String) : Except Error ProtocolId :=
  if isVersioned s.toList then .ok ⟨s⟩ else .error (.protocol s .invalidIdentifier)

/-- Prints a message on the node. -/
def print : ProtocolId := ⟨"/print/1.0.0"⟩

/-- Returns what it is sent. -/
def echo : ProtocolId := ⟨"/echo/1.0.0"⟩

/-- Hands over a sealed user record. -/
def newUser : ProtocolId := ⟨"/new-user/1.0.0"⟩

/-- Asks to seal, keep and replicate a payload. -/
def upload : ProtocolId := ⟨"/upload/1.0.0"⟩

/-- Hands over a sealed block. -/
def store : ProtocolId := ⟨"/store/1.0.0"⟩

/-- Asks whether a record satisfies criteria. -/
def verify : ProtocolId := ⟨"/verify/1.0.0"⟩

end ProtocolId

end SealedCustody
