import SealedCustody.Protobuf
import SealedCustody.Text.Utf8

/-!
# Negotiation

What a node makes of the first octets on a link that reaches it. They are messages, each behind its
length: a greeting, then the names of protocols until one is taken, then an exchange of keys. A node
hangs up as soon as a message is not what it has to be (`refuses`), and waits while more may follow.
-/

namespace SealedCustody.Negotiation

/-- What stands at the beginning of some octets. -/
inductive Message where
  /-- More has to arrive. -/
  | incomplete
  /-- The length cannot be read. -/
  | unreadable
  | whole (content rest : List UInt8)
deriving DecidableEq, Repr

/-- As many octets as a length says. -/
def Message.split (size : Nat) (bs : List UInt8) : Message :=
  if size ≤ bs.length then .whole (bs.take size) (bs.drop size) else .incomplete

/-- A message behind its length in one or two digits in base 128, of which a second is not zero. -/
def Message.ofOctets : List UInt8 → Message
  | [] => incomplete
  | low :: rest =>
    if low < 0x80 then split low.toNat rest
    else match rest with
      | [] => incomplete
      | high :: rest =>
        if high = 0 || 0x80 ≤ high then unreadable
        else split (low.toNat - 0x80 + 128 * high.toNat) rest

/-- A message of the exchange of keys, behind its length in two octets, the higher first. -/
def Message.ofExchange : List UInt8 → Message
  | high :: low :: rest => split (256 * high.toNat + low.toNat) rest
  | _ => incomplete

/-- What follows a part of some octets is no longer than they are. -/
theorem Message.split_length {size : Nat} {bs content rest : List UInt8}
    (h : split size bs = whole content rest) : rest.length ≤ bs.length := by
  unfold split at h
  split at h
  · obtain ⟨-, rfl⟩ := Message.whole.inj h
    simp
  · simp at h

/-- A message takes at least the octet of its length. -/
theorem Message.ofOctets_length {bs content rest : List UInt8}
    (h : ofOctets bs = whole content rest) : rest.length < bs.length := by
  unfold ofOctets at h
  split at h
  · simp at h
  · split at h
    · exact Nat.lt_succ_of_le (split_length h)
    · split at h
      · simp at h
      · split at h
        · simp at h
        · exact Nat.lt_succ_of_lt (Nat.lt_succ_of_le (split_length h))

/-! ## Messages -/

/-- The first message. -/
def greeting : List UInt8 := Utf8.octets "/multistream/1.0.0\n"

/-- The message that asks for the protocols. -/
def inquiry : List UInt8 := Utf8.octets "ls\n"

/-- The name of the protocol that is taken. -/
def accepted : List UInt8 := Utf8.octets "/noise\n"

/-- Whether a message is the name of a protocol: text between a slash and the only line break. -/
def isName (content : List UInt8) : Bool :=
  content.head? = some 0x2f && content.getLast? = some 0x0a && content.count 0x0a = 1
    && (Utf8.text? content).isSome && content ≠ greeting

/-! ## Refusals -/

/-- The octets of a key. -/
def keySize : Nat := 32

/-- Whether the fields behind a key say nothing: who the sender is and a proof of it, in fields one and
two, do not come with the first key, and neither does what field four holds. -/
def saysNothing (fields : List Protobuf.Field) : Bool :=
  let isEmpty (number : Nat) : Bool := Protobuf.last? fields number (·.octets?) [] = some []
  isEmpty 1 && isEmpty 2 && fields.all (·.number ≠ 4)

/-- Whether a message begins an exchange of keys. -/
def beginsExchange (content : List UInt8) : Bool :=
  keySize ≤ content.length && (Protobuf.fields? (content.drop keySize)).any saysNothing

/-- Whether a node hangs up on some octets of an exchange of keys. Only one who has the answer to the
first message can write a second. -/
def refusesExchange (bs : List UInt8) : Bool :=
  match Message.ofExchange bs with
  | .whole content rest => !beginsExchange content || Message.ofExchange rest ≠ .incomplete
  | _ => false

/-- Whether a node hangs up on some octets after the greeting. A name that it does not know it turns
down, and listens on. -/
def refusesNames (bs : List UInt8) : Bool :=
  match _h : Message.ofOctets bs with
  | .incomplete => false
  | .unreadable => true
  | .whole content rest =>
    if content = accepted then refusesExchange rest
    else !(content = inquiry || isName content) || refusesNames rest
termination_by bs.length
decreasing_by exact Message.ofOctets_length _h

/-- Whether a node hangs up on some octets at once. -/
def refuses (bs : List UInt8) : Bool :=
  match Message.ofOctets bs with
  | .incomplete => false
  | .unreadable => true
  | .whole content rest => content ≠ greeting || refusesNames rest

end SealedCustody.Negotiation
