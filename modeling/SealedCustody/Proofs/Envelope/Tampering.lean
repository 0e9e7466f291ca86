import SealedCustody.Proofs.Cipher.Field
import SealedCustody.Proofs.Cipher.Permutation
import SealedCustody.Proofs.Envelope.Sealing

/-!
# No octet of an envelope can be changed

An envelope with one octet put in another's place does not open (`open?_set`). Opening compares the tag
with that of the nonce and the ciphertext, so the argument is about the tag and depends on where the
octet is. A changed nonce has another first counter, which is encrypted to another block
(`tag_ne_of_nonce`). A changed ciphertext differs in one of the blocks that are hashed; from there on
the hashes differ, since each step adds the same block to both and multiplies both by the subkey, which
is not zero (`tag_ne_of_octet`). A changed tag is compared with what it was.
-/

namespace SealedCustody

namespace Gcm

variable {cipher : BlockCipher} {nonce : List UInt8}

/-! ## Hashes of different blocks -/

/-- One step of the hash keeps different hashes apart. -/
theorem step_injective {h : Block} (hne : h ≠ 0) (x : Block) {y z : Block}
    (heq : mul (y ^^^ x) h = mul (z ^^^ x) h) : y = z :=
  (BitVec.xor_left_inj _).1 (eq_of_mul_eq hne heq)

theorem foldl_injective {h : Block} (hne : h ≠ 0) {xs : List Block} {y z : Block}
    (heq : xs.foldl (fun y x => mul (y ^^^ x) h) y = xs.foldl (fun y x => mul (y ^^^ x) h) z) :
    y = z := by
  induction xs generalizing y z with
  | nil => exact heq
  | cons x xs ih => exact step_injective hne x (ih heq)

/-- The hash tells blocks apart that differ in one place. -/
theorem hashBlocks_injective {h : Block} (hne : h ≠ 0) {before after : List Block} {x y : Block}
    (heq : hashBlocks h (before ++ x :: after) = hashBlocks h (before ++ y :: after)) : x = y := by
  rw [hashBlocks, hashBlocks, List.foldl_append, List.foldl_append, List.foldl_cons,
    List.foldl_cons] at heq
  exact (BitVec.xor_right_inj _).1 (eq_of_mul_eq hne (foldl_injective hne heq))

/-! ## One changed octet -/

theorem set_ne {bs : List UInt8} {i : ℕ} {b : UInt8} (hi : i < bs.length) (hb : b ≠ bs[i]) :
    bs.set i b ≠ bs := by
  intro heq
  have hset : i < (bs.set i b).length := by rwa [List.length_set]
  have hget : (bs.set i b)[i] = bs[i] := List.getElem_of_eq heq hset
  exact hb ((List.getElem_set_self hset).symm.trans hget)

/-- A changed octet is a changed octet in one of the groups. -/
theorem chunks_set {bs : List UInt8} {i : ℕ} {b : UInt8} (hi : i < bs.length) (hb : b ≠ bs[i]) :
    ∃ (before : List (List UInt8)) (group : List UInt8) (after : List (List UInt8)) (j : ℕ)
      (hj : j < group.length), b ≠ group[j] ∧ group.length ≤ 16 ∧
      chunks bs = before ++ group :: after ∧
      chunks (bs.set i b) = before ++ group.set j b :: after := by
  induction bs using chunks.induct generalizing i with
  | case1 => exact absurd hi (Nat.not_lt_zero i)
  | case2 x xs ih =>
    have hgroup : (x :: xs.take 15).length ≤ 16 := by
      rw [List.length_cons, List.length_take]
      omega
    cases i with
    | zero =>
      refine ⟨[], x :: xs.take 15, chunks (xs.drop 15), 0, Nat.succ_pos _, hb, hgroup, ?_, ?_⟩
      · rw [chunks, List.nil_append]
      · rw [List.set_cons_zero, chunks, List.set_cons_zero, List.nil_append]
    | succ i =>
      rw [List.length_cons] at hi
      rw [List.getElem_cons_succ] at hb
      by_cases hfirst : i < 15
      · -- in the first group
        have hj : i < (xs.take 15).length := by
          rw [List.length_take]
          omega
        refine ⟨[], x :: xs.take 15, chunks (xs.drop 15), i + 1, Nat.succ_lt_succ hj, ?_, hgroup, ?_, ?_⟩
        · rwa [List.getElem_cons_succ, List.getElem_take]
        · rw [chunks, List.nil_append]
        · rw [List.set_cons_succ, chunks, List.set_cons_succ, List.take_set, List.drop_set,
            if_pos hfirst, List.nil_append]
      · -- in a later one
        have hrest : i - 15 < (xs.drop 15).length := by
          rw [List.length_drop]
          omega
        have hold : b ≠ (xs.drop 15)[i - 15] := by
          rw [List.getElem_drop]
          simpa only [Nat.add_sub_cancel' (Nat.le_of_not_lt hfirst)] using hb
        obtain ⟨before, group, after, j, hj, hne, hle, hchunks, hset⟩ := ih hrest hold
        refine ⟨(x :: xs.take 15) :: before, group, after, j, hj, hne, hle, ?_, ?_⟩
        · rw [chunks, hchunks, List.cons_append]
        · rw [List.set_cons_succ, chunks, List.take_set_of_le (Nat.le_of_not_lt hfirst), List.drop_set,
            if_neg hfirst, hset, List.cons_append]

/-! ## Tags -/

theorem tag_ne_of_nonce (hcipher : Function.Injective cipher) {other : List UInt8}
    (hnonce : nonce.length = 12) (hother : other.length = 12) (hne : other ≠ nonce)
    (ciphertext : List UInt8) : tag cipher other ciphertext ≠ tag cipher nonce ciphertext := by
  intro heq
  have hcounter := hcipher ((BitVec.xor_right_inj _).1 (octets_injective heq))
  exact hne (counter_injective hother hnonce hcounter)

theorem tag_ne_of_octet (hsubkey : cipher 0 ≠ 0) {ciphertext : List UInt8} {i : ℕ} {b : UInt8}
    (hi : i < ciphertext.length) (hb : b ≠ ciphertext[i]) :
    tag cipher nonce (ciphertext.set i b) ≠ tag cipher nonce ciphertext := by
  intro heq
  obtain ⟨before, group, after, j, hj, hne, hle, hchunks, hset⟩ := chunks_set hi hb
  have hhash := (BitVec.xor_left_inj _).1 (octets_injective heq)
  -- the block with the length is the same
  rw [hashInput, hashInput, hchunks, hset, List.length_set, List.map_append, List.map_append,
    List.map_cons, List.map_cons, List.append_assoc, List.append_assoc, List.cons_append,
    List.cons_append] at hhash
  have hblock := hashBlocks_injective hsubkey hhash
  have hlength : (group.set j b).length = group.length := List.length_set
  exact set_ne hj hne (block_injective hlength (hlength.trans_le hle) hblock)

end Gcm

namespace Envelope

theorem open?_append_of_ne {key : EnvelopeKey} {nonce ciphertext t : List UInt8}
    (hnonce : nonce.length = nonceSize) (ht : t.length = tagSize)
    (hne : Gcm.tag key.cipher nonce ciphertext ≠ t) : open? key (nonce ++ (ciphertext ++ t)) = none := by
  rw [open?_append key hnonce ht, if_neg hne]

/-- Whichever octet of an envelope is changed, it does not open any more. -/
theorem open?_set (key : EnvelopeKey) {nonce : List UInt8} (hnonce : nonce.length = nonceSize)
    (hsubkey : key.cipher 0 ≠ 0) (plaintext : List UInt8) {i : ℕ} {b : UInt8}
    (hi : i < (sealWith key nonce plaintext).length) (hb : b ≠ (sealWith key nonce plaintext)[i]) :
    open? key ((sealWith key nonce plaintext).set i b) = none := by
  -- only the layout matters: the nonce, a ciphertext and the tag of the two
  obtain ⟨ciphertext, hsealed⟩ : ∃ ciphertext, sealWith key nonce plaintext =
      nonce ++ (ciphertext ++ Gcm.tag key.cipher nonce ciphertext) := ⟨_, rfl⟩
  revert hi hb
  rw [hsealed]
  intro hi hb
  have htag := Gcm.length_tag key.cipher nonce ciphertext
  rw [List.length_append, List.length_append] at hi
  rw [List.set_append]
  split
  · -- in the nonce
    next hin =>
    rw [List.getElem_append_left hin] at hb
    have hset : (nonce.set i b).length = nonceSize := List.length_set.trans hnonce
    exact open?_append_of_ne hset htag
      (Gcm.tag_ne_of_nonce key.cipher_injective hnonce hset (Gcm.set_ne hin hb) ciphertext)
  next hout =>
  rw [List.getElem_append_right (Nat.le_of_not_lt hout)] at hb
  rw [List.set_append]
  split
  · -- in the ciphertext
    next hin =>
    rw [List.getElem_append_left hin] at hb
    exact open?_append_of_ne hnonce htag (Gcm.tag_ne_of_octet hsubkey hin hb)
  · -- in the tag
    next hpast =>
    rw [List.getElem_append_right (Nat.le_of_not_lt hpast)] at hb
    have hset := Gcm.set_ne (by omega) hb
    exact open?_append_of_ne hnonce (List.length_set.trans htag) hset.symm

/-- Under the key of zeros, whose subkey is not zero, an envelope with a changed bit. -/
theorem open?_set_zero_key :
    (⟨List.replicate 32 0, rfl⟩ : EnvelopeKey).cipher 0 ≠ 0 ∧
      ∃ hi : 13 < (sealWith ⟨List.replicate 32 0, rfl⟩ (List.replicate 12 0) [1, 2, 3]).length,
        open? ⟨List.replicate 32 0, rfl⟩
          ((sealWith ⟨List.replicate 32 0, rfl⟩ (List.replicate 12 0) [1, 2, 3]).set 13
            ((sealWith ⟨List.replicate 32 0, rfl⟩ (List.replicate 12 0) [1, 2, 3])[13] ^^^ 1)) = none := by
  have hsubkey : (⟨List.replicate 32 0, rfl⟩ : EnvelopeKey).cipher 0 ≠ 0 := by decide +kernel
  have hi : 13 < (sealWith ⟨List.replicate 32 0, rfl⟩ (List.replicate 12 0) [1, 2, 3]).length := by
    rw [length_sealWith _ rfl]
    decide
  have hbit (x : UInt8) : x ^^^ 1 ≠ x := by
    intro hsame
    have hcancel := Aes256.xor_cancel x 1
    rw [hsame, UInt8.xor_self] at hcancel
    exact absurd hcancel (by decide)
  exact ⟨hsubkey, hi, open?_set _ rfl hsubkey [1, 2, 3] hi (hbit _)⟩

end Envelope

end SealedCustody
