/-!
# Galois counter mode

NIST SP 800-38D over any permutation of blocks of 128 bits, with nonces of twelve octets, tags of
sixteen and no additional data. The ciphertext is the plaintext xored with the encrypted counters that
follow the nonce's first; the tag is the hash of the ciphertext, a polynomial in the encrypted zero
block, xored with the encryption of the first counter. Opening recomputes the tag from the ciphertext
and yields the plaintext only if it is the tag given.
-/

namespace SealedCustody.Gcm

/-- A block; its first octet is the most significant. -/
abbrev Block := BitVec 128

/-- A block cipher under a fixed key. -/
abbrev BlockCipher := Block → Block

/-! ## Octets and blocks -/

/-- The number that octets spell, most significant first. -/
def number (bs : List UInt8) : Nat := bs.foldl (fun n b => n * 256 + b.toNat) 0

/-- The block that starts with up to sixteen octets and ends in zeros. -/
def block (bs : List UInt8) : Block :=
  BitVec.ofNat 128 (number bs * Nat.pow 256 (16 - bs.length))

/-- The sixteen octets of a block. -/
def octets (x : Block) : List UInt8 :=
  (List.range 16).reverse.map fun i => (x.toNat / Nat.pow 256 i % 256).toUInt8

/-- Octets in groups of sixteen, the last possibly shorter. -/
def chunks : List UInt8 → List (List UInt8)
  | [] => []
  | b :: bs => (b :: bs.take 15) :: chunks (bs.drop 15)
termination_by bs => bs.length
decreasing_by
  simp only [List.length_drop, List.length_cons]
  omega

/-! ## The field and the hash -/

/-- The block that reduces `x ^ 128`: the bits of `1 + x + x ^ 2 + x ^ 7`, lowest power first. -/
def reduction : Block := BitVec.ofNat 128 (0xe1 * Nat.pow 2 120)

/-- Multiplication by `x`: a shift to higher powers, reduced. -/
def timesX (v : Block) : Block := if v.getLsbD 0 then (v >>> 1) ^^^ reduction else v >>> 1

/-- The product of the first `n` powers of one factor and the other, most significant bit first. -/
def mulFrom (x : Block) : Nat → Block → Block → Block
  | 0, _, z => z
  | n + 1, v, z => mulFrom x n (timesX v) (if x.getLsbD n then z ^^^ v else z)

/-- The product in the field of `2 ^ 128` elements. -/
def mul (x y : Block) : Block := mulFrom x 128 y 0

/-- The hash of some blocks under a subkey. -/
def hashBlocks (h : Block) (xs : List Block) : Block := xs.foldl (fun y x => mul (y ^^^ x) h) 0

/-- The blocks that are hashed for a ciphertext: its own, padded with zeros, and one with its length
in bits. -/
def hashInput (ciphertext : List UInt8) : List Block :=
  (chunks ciphertext).map block ++ [BitVec.ofNat 128 (ciphertext.length * 8)]

/-! ## Counters -/

/-- The `i`-th counter block of a nonce. -/
def counter (nonce : List UInt8) (i : Nat) : Block :=
  block nonce ||| BitVec.ofNat 128 (i % UInt32.size)

/-- Xors each group with an encrypted counter, from counter `i` on. -/
def crypt (cipher : BlockCipher) (nonce : List UInt8) : Nat → List (List UInt8) → List UInt8
  | _, [] => []
  | i, group :: rest =>
    List.zipWith (· ^^^ ·) group (octets (cipher (counter nonce i)))
      ++ crypt cipher nonce (i + 1) rest

/-- The tag of a ciphertext. -/
def tag (cipher : BlockCipher) (nonce ciphertext : List UInt8) : List UInt8 :=
  octets (hashBlocks (cipher 0) (hashInput ciphertext) ^^^ cipher (counter nonce 1))

/-! ## Sealing and opening -/

/-- The ciphertext followed by its tag. -/
def encrypt (cipher : BlockCipher) (nonce plaintext : List UInt8) : List UInt8 :=
  let ciphertext := crypt cipher nonce 2 (chunks plaintext)
  ciphertext ++ tag cipher nonce ciphertext

/-- The plaintext of a ciphertext followed by its tag, if the tag is right. -/
def decrypt? (cipher : BlockCipher) (nonce sealed_ : List UInt8) : Option (List UInt8) :=
  if sealed_.length < 16 then none
  else
    let ciphertext := sealed_.take (sealed_.length - 16)
    if tag cipher nonce ciphertext = sealed_.drop (sealed_.length - 16) then
      some (crypt cipher nonce 2 (chunks ciphertext))
    else none

end SealedCustody.Gcm
