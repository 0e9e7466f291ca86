/-!
# UTF-8 with undecodable octets

`Utf8.decode` reads octets as characters. An octet that is no part of a well-formed sequence is kept
in place as `none`, so that a reader can tell where it stands; `Utf8.text?` reads octets that are
well formed throughout. The octets of a character outside ASCII are all 128 or more, so an undecodable
octet never hides an ASCII character.
-/

namespace SealedCustody.Utf8

/-- The octets of some characters. -/
def encode (cs : List Char) : List UInt8 := cs.flatMap String.utf8EncodeChar

/-- The octets of a text. -/
def octets (s : String) : List UInt8 := s.toUTF8.toList

/-- The six payload bits of a continuation octet. -/
def continuation? (b : UInt8) : Option Nat :=
  if 0x80 ≤ b ∧ b < 0xc0 then some (b.toNat - 0x80) else none

/-- A character outside ASCII from its first octet and those that follow, with the number of octets
used beyond the first. Surrogates, overlong forms and values past the last character are refused. -/
def sequence? (b : UInt8) (rest : List UInt8) : Option (Char × Nat) :=
  let scalar? (least value used : Nat) : Option (Char × Nat) :=
    if h : value.isValidChar then
      if least ≤ value then some (Char.ofNatAux value h, used) else none
    else none
  if b < 0xc0 then none
  else if b < 0xe0 then
    match rest with
    | b1 :: _ => do
      scalar? 0x80 ((b.toNat - 0xc0) * 64 + (← continuation? b1)) 1
    | _ => none
  else if b < 0xf0 then
    match rest with
    | b1 :: b2 :: _ => do
      scalar? 0x800 (((b.toNat - 0xe0) * 64 + (← continuation? b1)) * 64 + (← continuation? b2)) 2
    | _ => none
  else if b < 0xf8 then
    match rest with
    | b1 :: b2 :: b3 :: _ => do
      scalar? 0x10000
        ((((b.toNat - 0xf0) * 64 + (← continuation? b1)) * 64 + (← continuation? b2)) * 64
          + (← continuation? b3)) 3
    | _ => none
  else none

/-- Reads octets as characters, putting those read so far, last first, before the rest. -/
def decodeOnto (done : List (Option Char)) : List UInt8 → List (Option Char)
  | [] => done.reverse
  | b :: rest =>
    if b < 0x80 then decodeOnto (some (Char.ofNat b.toNat) :: done) rest
    else match sequence? b rest with
      | some (c, used) => decodeOnto (some c :: done) (rest.drop used)
      | none => decodeOnto (none :: done) rest
termination_by bs => bs.length
decreasing_by all_goals (simp only [List.length_drop, List.length_cons]; omega)

/-- Reads octets as characters; an undecodable octet becomes `none`. -/
def decode (bs : List UInt8) : List (Option Char) := decodeOnto [] bs

/-- The text that well-formed octets spell. -/
def text? (bs : List UInt8) : Option String :=
  (decode bs).mapM id |>.map String.ofList

end SealedCustody.Utf8
