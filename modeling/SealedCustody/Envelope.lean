import SealedCustody.Cipher.Aes256
import SealedCustody.Cipher.Gcm
import SealedCustody.Text.Base64

/-!
# Sealed envelopes

An envelope is a nonce of twelve octets, the ciphertext and a tag of sixteen octets. `Envelope.sealWith`
takes the nonce that was drawn; `Envelope.open?` yields the plaintext of an envelope that was sealed
under the same key and nothing for any other octets.

The counter of the cipher has 32 bits, so that no more than about 2 ^ 36 octets can be sealed at once, and
sealing more is an error. That error is left out, and `Envelope.sealWith` is total: the limit is 64 GiB,
while what is sealed is a record or an upload, which is held in memory as a whole, and an upload fits one
message of the node besides.
-/

namespace SealedCustody

/-- The octets in a key. -/
def EnvelopeKey.size : Nat := 32

/-- A key of 256 bits. -/
structure EnvelopeKey where
  octets : List UInt8
  size_eq : octets.length = EnvelopeKey.size
deriving DecidableEq

namespace EnvelopeKey

/-- Why some input is no key. -/
inductive Fault where
  | notBase64
  | wrongSize (found : Nat)
deriving DecidableEq, Repr

/-- The text of a fault. -/
def Fault.message : Fault → String
  | notBase64 => "invalid base64 key: not in canonical form"
  | wrongSize found => "envelope key must be 32 bytes, got " ++ toString found

/-- The key with given octets. -/
def ofOctets (bs : List UInt8) : Except Fault EnvelopeKey :=
  if h : bs.length = size then .ok ⟨bs, h⟩ else .error (.wrongSize bs.length)

/-- The key given by a Base64 text, blanks at its ends dropped. -/
def ofBase64 (s : String) : Except Fault EnvelopeKey :=
  match Base64.decodeTrimmed? s with
  | some bs => ofOctets bs
  | none => .error .notBase64

/-- The Base64 text of a key. -/
def toBase64 (k : EnvelopeKey) : String := Base64.encode k.octets

/-- A key shows nothing of itself. -/
def shown (_ : EnvelopeKey) : String := "EnvelopeKey(..)"

/-- The block cipher under a key. -/
def cipher (k : EnvelopeKey) : Gcm.BlockCipher :=
  let keys := Aes256.roundKeys k.octets
  fun x => Gcm.block (Aes256.encryptWith keys (Gcm.octets x))

end EnvelopeKey

namespace Envelope

/-- The octets in a nonce. -/
def nonceSize : Nat := 12

/-- The octets in a tag. -/
def tagSize : Nat := 16

/-- The size of the envelope of an empty plaintext. -/
def minSize : Nat := nonceSize + tagSize

/-- The envelope of a plaintext under a block cipher and a nonce. -/
def sealUnder (cipher : Gcm.BlockCipher) (nonce plaintext : List UInt8) : List UInt8 :=
  nonce ++ Gcm.encrypt cipher nonce plaintext

/-- The plaintext of an envelope under a block cipher. -/
def openUnder? (cipher : Gcm.BlockCipher) (envelope : List UInt8) : Option (List UInt8) :=
  if envelope.length < minSize then none
  else Gcm.decrypt? cipher (envelope.take nonceSize) (envelope.drop nonceSize)

/-- The envelope of a plaintext under a key and a nonce. -/
def sealWith (key : EnvelopeKey) (nonce plaintext : List UInt8) : List UInt8 :=
  sealUnder key.cipher nonce plaintext

/-- The plaintext of an envelope; `none` when it does not authenticate. -/
def open? (key : EnvelopeKey) (envelope : List UInt8) : Option (List UInt8) :=
  openUnder? key.cipher envelope

/-- The plaintext of an envelope given as Base64; a text that is none does not authenticate. -/
def openBase64? (key : EnvelopeKey) (s : String) : Option (List UInt8) :=
  (Base64.decodeTrimmed? s).bind (open? key)

/-- An envelope shows its size only. -/
def shown (envelope : List UInt8) : String :=
  "EncryptedEnvelope(" ++ toString envelope.length ++ " bytes)"

end Envelope

end SealedCustody
