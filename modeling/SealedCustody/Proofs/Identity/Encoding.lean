import SealedCustody.Identity

/-!
# Identities and their octets

The octets of an identity are read back as that identity (`Identity.decode?_encode`), if its halves belong
together. Those of any identity that was read do (`Identity.IsKeyPair.of_decode?`), so whatever octets it
was read from, with their fields in any order, repeated and between others, its own octets give it again.
-/

namespace SealedCustody

theorem Ed25519.length_publicKey (secret : List UInt8) : (publicKey secret).length = 32 := by
  rw [publicKey, encode, littleEndian, List.length_map, List.length_range]

namespace Protobuf

/-- A number below 128 is one octet. -/
theorem word?_cons {b : UInt8} (h : b < 0x80) (rest : List UInt8) :
    Base128.word? (b :: rest) = some (b.toNat, rest) := by
  have hvalue : Base128.value [b.toNat] = b.toNat := Nat.add_zero _
  have hsize : b.toNat < UInt64.size := Nat.lt_trans b.toNat_lt (by decide)
  rw [Base128.word?, Base128.digits?, if_pos h]
  dsimp only
  rw [hvalue, List.length_singleton, if_pos ⟨by decide, hsize⟩]

/-- The key of a field below sixteen is one octet. -/
theorem key?_cons {b : UInt8} (h : b < 0x80) (hnumber : b.toNat / 8 ≠ 0) (rest : List UInt8) :
    key? (b :: rest) = some (b.toNat / 8, b.toNat % 8, rest) := by
  have hsize : b.toNat < UInt32.size := Nat.lt_trans b.toNat_lt (by decide)
  rw [key?, word?_cons h]
  exact if_pos ⟨hsize, hnumber⟩

/-- Octets that begin with a key and its payload begin with that field. -/
theorem flat?_cons {bs rest rest' : List UInt8} {number kind : Nat} {payload : Payload}
    (hkey : key? bs = some (number, kind, rest)) (hpayload : payload? kind rest = some (payload, rest')) :
    flat? bs = (flat? rest').map (⟨number, payload⟩ :: ·) := by
  have hne : ¬bs.isEmpty = true := by
    rintro h
    rw [List.isEmpty_iff.1 h] at hkey
    cases hkey
  rw [flat?, if_neg hne]
  split
  · rename_i hnone
    rw [hkey] at hnone
    cases hnone
  · rename_i number' kind' rest₁ hsome
    rw [hkey] at hsome
    cases hsome
    split
    · rename_i hnone
      rw [hpayload] at hnone
      cases hnone
    · rename_i payload' rest₂ hsome
      rw [hpayload] at hsome
      cases hsome
      rfl

end Protobuf

namespace Identity

variable {i : Identity} {bs : List UInt8}

/-- A secret of 32 octets with the public key that belongs to it. -/
structure IsKeyPair (i : Identity) : Prop where
  length_secret : i.secret.length = 32
  publicKey_eq : i.publicKey = Ed25519.publicKey i.secret

theorem isKeyPair_ofSecret {secret : List UInt8} (h : secret.length = 32) : (ofSecret secret).IsKeyPair :=
  ⟨h, rfl⟩

theorem IsKeyPair.length_halves (h : i.IsKeyPair) : (i.secret ++ i.publicKey).length = 64 := by
  rw [List.length_append, h.length_secret, h.publicKey_eq, Ed25519.length_publicKey]

/-- An identity is read from the last type and the last key that some fields hold, if the type is that of
the key and the key is a secret with its public half. -/
theorem decode?_eq_some_iff : decode? bs = some i ↔
    ∃ fields, Protobuf.fields? bs = some fields ∧
      ∃ keyType, Protobuf.last? fields 1 (·.number?) 0 = some keyType ∧
        ∃ data, Protobuf.last? fields 2 (·.octets?) [] = some data ∧
          (keyType % UInt32.size = ed25519Type ∧ data.length = 64 ∧
            data.drop 32 = Ed25519.publicKey (data.take 32)) ∧ ofSecret (data.take 32) = i := by
  simp only [decode?, Option.bind_eq_bind, Option.bind_eq_some_iff, Option.ite_none_right_eq_some,
    Option.some.injEq]
  rfl

/-- What is read is a secret with the public key that belongs to it. -/
theorem IsKeyPair.of_decode? (h : decode? bs = some i) : i.IsKeyPair := by
  obtain ⟨-, -, -, -, data, -, ⟨-, hlength, -⟩, rfl⟩ := decode?_eq_some_iff.1 h
  exact isKeyPair_ofSecret (by rw [List.length_take, hlength]; rfl)

/-- The octets of an identity hold its type and its halves, and nothing else. -/
theorem fields?_encode (h : i.IsKeyPair) : Protobuf.fields? i.encode =
    some [⟨1, .number ed25519Type⟩, ⟨2, .octets (i.secret ++ i.publicKey)⟩] := by
  have hencode : i.encode = 0x08 :: 0x01 :: 0x12 :: 0x40 :: (i.secret ++ i.publicKey) := by
    rw [encode, List.append_assoc]
    rfl
  have hfirst : Protobuf.key? (0x08 :: 0x01 :: 0x12 :: 0x40 :: (i.secret ++ i.publicKey)) =
      some (1, 0, 0x01 :: 0x12 :: 0x40 :: (i.secret ++ i.publicKey)) :=
    Protobuf.key?_cons (by decide) (by decide) _
  have hsecond : Protobuf.key? (0x12 :: 0x40 :: (i.secret ++ i.publicKey)) =
      some (2, 2, 0x40 :: (i.secret ++ i.publicKey)) :=
    Protobuf.key?_cons (by decide) (by decide) _
  have htype : Protobuf.payload? 0 (0x01 :: 0x12 :: 0x40 :: (i.secret ++ i.publicKey)) =
      some (.number ed25519Type, 0x12 :: 0x40 :: (i.secret ++ i.publicKey)) := by
    rw [Protobuf.payload?, Protobuf.word?_cons (by decide)]
    rfl
  have hdata : Protobuf.payload? 2 (0x40 :: (i.secret ++ i.publicKey)) =
      some (.octets (i.secret ++ i.publicKey), []) := by
    have hcount : (0x40 : UInt8).toNat = (i.secret ++ i.publicKey).length := h.length_halves.symm
    rw [Protobuf.payload?, Protobuf.word?_cons (by decide)]
    dsimp only
    rw [hcount, Protobuf.octets?, if_pos (Nat.le_refl _), List.take_length, List.drop_length]
    rfl
  have hflat : Protobuf.flat? i.encode =
      some [⟨1, .number ed25519Type⟩, ⟨2, .octets (i.secret ++ i.publicKey)⟩] := by
    rw [hencode, Protobuf.flat?_cons hfirst htype, Protobuf.flat?_cons hsecond hdata, Protobuf.flat?]
    rfl
  rw [Protobuf.fields?, hflat]
  rfl

/-- The octets of an identity are read back as that identity. -/
theorem decode?_encode (h : i.IsKeyPair) : decode? i.encode = some i := by
  have htake : (i.secret ++ i.publicKey).take 32 = i.secret := by
    rw [← h.length_secret, List.take_left]
  have hdrop : (i.secret ++ i.publicKey).drop 32 = i.publicKey := by
    rw [← h.length_secret, List.drop_left]
  refine decode?_eq_some_iff.2 ⟨_, fields?_encode h, ed25519Type, rfl, i.secret ++ i.publicKey, rfl,
    ⟨rfl, h.length_halves, ?_⟩, ?_⟩
  · rw [htake, hdrop, h.publicKey_eq]
  · rw [htake, ofSecret, ← h.publicKey_eq]

end Identity

end SealedCustody
