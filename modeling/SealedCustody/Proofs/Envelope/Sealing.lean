import SealedCustody.Proofs.Envelope.Opening

/-!
# An envelope opens exactly when it was sealed

`open?_eq_some` says which octets open under a key, and to what: those that sealing what they open to
under their own nonce produces. A tag is computed from the ciphertext, and encrypting twice changes
nothing (`crypt_crypt`), so an envelope with the right tag is the one that its plaintext is sealed in.

The same holds of Base64: a text that is read is the one that writing its octets produces
(`decodeOnto_eq_some`, along the recursion of reading), so an envelope given as a text opens exactly
when the text, without the blanks at its ends, is that of an envelope that opens.
-/

namespace SealedCustody

/-! ## Galois counter mode -/

namespace Gcm

/-- Counter mode keeps the length, also if the last group is short. -/
theorem length_crypt (cipher : BlockCipher) (nonce : List UInt8) (i : Nat) (bs : List UInt8) :
    (crypt cipher nonce i (chunks bs)).length = bs.length := by
  induction bs using chunks.induct generalizing i with
  | case1 => simp [chunks, crypt]
  | case2 b bs ih =>
    rw [chunks, crypt, List.length_append, List.length_zipWith, ih, length_octets, List.length_cons,
      List.length_take, List.length_drop, List.length_cons]
    omega

theorem decrypt?_append (cipher : BlockCipher) (nonce ciphertext : List UInt8) {t : List UInt8}
    (ht : t.length = 16) :
    decrypt? cipher nonce (ciphertext ++ t) =
      if tag cipher nonce ciphertext = t then some (crypt cipher nonce 2 (chunks ciphertext))
      else none := by
  have hsize : (ciphertext ++ t).length - 16 = ciphertext.length := by
    rw [List.length_append, ht, Nat.add_sub_cancel]
  unfold decrypt?
  dsimp only
  rw [if_neg (by rw [List.length_append, ht]; omega), hsize, List.take_left, List.drop_left]

end Gcm

/-! ## Base64 -/

namespace Base64

/-- A character is the digit of its value. -/
theorem digit_value? {c : Char} {n : Nat} (h : value? c = some n) : n < 64 ∧ digit n = c := by
  unfold value? at h
  split at h
  · -- an upper-case letter
    next hc =>
    have hlow : 65 ≤ c.toNat := hc.1
    have hhigh : c.toNat ≤ 90 := hc.2
    obtain rfl := Option.some.inj h
    refine ⟨by omega, ?_⟩
    rw [digit, if_pos (by omega), Nat.add_sub_cancel' hlow, Char.ofNat_toNat]
  split at h
  · -- a lower-case letter
    next hc =>
    have hlow : 97 ≤ c.toNat := hc.1
    have hhigh : c.toNat ≤ 122 := hc.2
    obtain rfl := Option.some.inj h
    refine ⟨by omega, ?_⟩
    rw [digit, if_neg (by omega), if_pos (by omega), Nat.add_sub_cancel' (by omega), Char.ofNat_toNat]
  split at h
  · -- a decimal digit
    next hc =>
    have hlow : 48 ≤ c.toNat := hc.1
    have hhigh : c.toNat ≤ 57 := hc.2
    obtain rfl := Option.some.inj h
    refine ⟨by omega, ?_⟩
    rw [digit, if_neg (by omega), if_neg (by omega), if_pos (by omega), Nat.add_sub_cancel,
      Char.ofNat_toNat]
  split at h
  · next hc =>
    obtain rfl := Option.some.inj h
    exact ⟨by decide, hc.symm⟩
  split at h
  · next hc =>
    obtain rfl := Option.some.inj h
    exact ⟨by decide, hc.symm⟩
  · cases h

/-- A number below 256 is the value of its octet. -/
theorem toNat_toUInt8 {n : Nat} (h : n < 256) : n.toUInt8.toNat = n := Nat.mod_eq_of_lt h

/-! ### Groups written from their values -/

theorem encodeList_one {x y : Nat} (hx : x < 64) (hy : y < 64) (hlow : y % 16 = 0) :
    encodeList [((x * 64 + y) / 16).toUInt8] = [digit x, digit y, '=', '='] := by
  have hfirst : (x * 64 + y) / 16 * 16 / 64 = x := by omega
  have hsecond : (x * 64 + y) / 16 * 16 % 64 = y := by omega
  simp only [encodeList, toNat_toUInt8 (n := (x * 64 + y) / 16) (by omega), hfirst, hsecond]

theorem encodeList_two {x y z : Nat} (hx : x < 64) (hy : y < 64) (hz : z < 64)
    (hlow : ((x * 64 + y) * 64 + z) % 4 = 0) :
    let n := (x * 64 + y) * 64 + z
    encodeList [(n / 1024).toUInt8, (n / 4 % 256).toUInt8] =
      [digit x, digit y, digit z, '='] := by
  intro n
  have hvalue : (n / 1024 * 256 + n / 4 % 256) * 4 = n := by omega
  have hfirst : n / 4096 = x := by omega
  have hsecond : n / 64 % 64 = y := by omega
  have hthird : n % 64 = z := by omega
  simp only [encodeList, toNat_toUInt8 (n := n / 1024) (by omega),
    toNat_toUInt8 (n := n / 4 % 256) (by omega), hvalue, hfirst, hsecond, hthird]

theorem encodeList_three {w x y z : Nat} (hw : w < 64) (hx : x < 64) (hy : y < 64) (hz : z < 64)
    (rest : List UInt8) :
    let n := ((w * 64 + x) * 64 + y) * 64 + z
    encodeList ((n / 65536).toUInt8 :: (n / 256 % 256).toUInt8 :: (n % 256).toUInt8 :: rest) =
      digit w :: digit x :: digit y :: digit z :: encodeList rest := by
  intro n
  have hvalue : (n / 65536 * 256 + n / 256 % 256) * 256 + n % 256 = n := by omega
  have hfirst : n / 262144 = w := by omega
  have hsecond : n / 4096 % 64 = x := by omega
  have hthird : n / 64 % 64 = y := by omega
  have hfourth : n % 64 = z := by omega
  simp only [encodeList, toNat_toUInt8 (n := n / 65536) (by omega),
    toNat_toUInt8 (n := n / 256 % 256) (by omega), toNat_toUInt8 (n := n % 256) (by omega), hvalue,
    hfirst, hsecond, hthird, hfourth]

/-! ### What is read was written -/

theorem encodeList_of_lastGroup? {a b c d : Char} {bs : List UInt8}
    (h : lastGroup? a b c d = some bs) : encodeList bs = [a, b, c, d] := by
  unfold lastGroup? at h
  simp only [Option.bind_eq_bind, Option.bind_eq_some_iff] at h
  obtain ⟨x, hx, y, hy, h⟩ := h
  obtain ⟨hxlt, rfl⟩ := digit_value? hx
  obtain ⟨hylt, rfl⟩ := digit_value? hy
  split at h
  · next hd =>
    subst hd
    split at h
    · next hc =>
      subst hc
      split at h
      · next hlow =>
        obtain rfl := Option.some.inj h
        exact encodeList_one hxlt hylt hlow
      · cases h
    · obtain ⟨z, hz, hthird⟩ := Option.bind_eq_some_iff.1 h
      obtain ⟨hzlt, rfl⟩ := digit_value? hz
      split at hthird
      · next hlow =>
        obtain rfl := Option.some.inj hthird
        exact encodeList_two hxlt hylt hzlt hlow
      · cases hthird
  · obtain ⟨z, hz, hthird⟩ := Option.bind_eq_some_iff.1 h
    obtain ⟨w, hw, hfourth⟩ := Option.bind_eq_some_iff.1 hthird
    obtain ⟨hzlt, rfl⟩ := digit_value? hz
    obtain ⟨hwlt, rfl⟩ := digit_value? hw
    obtain rfl := Option.some.inj hfourth
    exact encodeList_three hxlt hylt hzlt hwlt []

theorem decodeOnto_eq_some {done : List UInt8} {cs : List Char} {r : List UInt8}
    (h : decodeOnto done cs = some r) : ∃ bs, cs = encodeList bs ∧ r = done.reverse ++ bs := by
  induction done, cs using decodeOnto.induct with
  | case1 done =>
    rw [decodeOnto] at h
    obtain rfl := Option.some.inj h
    exact ⟨[], rfl, (List.append_nil _).symm⟩
  | case2 done a b c d =>
    rw [decodeOnto] at h
    obtain ⟨bs, hbs, h⟩ := Option.bind_eq_some_iff.1 h
    obtain rfl := Option.some.inj h
    exact ⟨bs, (encodeList_of_lastGroup? hbs).symm, rfl⟩
  | case3 done a b c d rest hne ih =>
    rw [decodeOnto] at h
    · simp only [Option.bind_eq_bind, Option.bind_eq_some_iff] at h
      obtain ⟨w, hw, x, hx, y, hy, z, hz, h⟩ := h
      obtain ⟨hwlt, rfl⟩ := digit_value? hw
      obtain ⟨hxlt, rfl⟩ := digit_value? hx
      obtain ⟨hylt, rfl⟩ := digit_value? hy
      obtain ⟨hzlt, rfl⟩ := digit_value? hz
      obtain ⟨bs, rfl, rfl⟩ := ih w x y z h
      refine ⟨_, (encodeList_three hwlt hxlt hylt hzlt bs).symm, ?_⟩
      simp
    · exact hne
  | case4 done cs hnil hgroup hmore =>
    -- neither nothing nor at least four characters
    rw [decodeOnto] at h
    · cases h
    · exact hnil
    · exact hgroup
    · exact hmore

/-- A text is read as some octets exactly when it is, but for blanks at its ends, what they are written
as. -/
theorem decodeTrimmed?_eq_some {s : String} {bs : List UInt8} :
    decodeTrimmed? s = some bs ↔ Text.trimmed s.toList = encodeList bs := by
  unfold decodeTrimmed?
  constructor
  · intro h
    obtain ⟨read, htext, rfl⟩ := decodeOnto_eq_some h
    exact htext
  · intro h
    rw [h, decodeOnto_encodeList]
    rfl

end Base64

/-! ## Envelopes -/

namespace Envelope

/-- Enough octets are a nonce, a ciphertext and a tag. -/
theorem exists_parts {envelope : List UInt8} (h : minSize ≤ envelope.length) :
    ∃ nonce ciphertext t, nonce.length = nonceSize ∧ t.length = tagSize ∧
      envelope = nonce ++ (ciphertext ++ t) := by
  have hsizes : minSize = nonceSize + tagSize := rfl
  refine ⟨envelope.take nonceSize, (envelope.drop nonceSize).take (envelope.length - minSize),
    (envelope.drop nonceSize).drop (envelope.length - minSize), ?_, ?_, ?_⟩
  · rw [List.length_take]
    omega
  · rw [List.length_drop, List.length_drop]
    omega
  · rw [List.take_append_drop, List.take_append_drop]

/-- Opening compares the tag with that of the nonce and the ciphertext. -/
theorem open?_append (key : EnvelopeKey) {nonce t : List UInt8} (hnonce : nonce.length = nonceSize)
    (ht : t.length = tagSize) (ciphertext : List UInt8) :
    open? key (nonce ++ (ciphertext ++ t)) =
      if Gcm.tag key.cipher nonce ciphertext = t then
        some (Gcm.crypt key.cipher nonce 2 (Gcm.chunks ciphertext))
      else none := by
  have hsize : ¬ (nonce ++ (ciphertext ++ t)).length < minSize := by
    rw [List.length_append, List.length_append, hnonce, ht, minSize]
    omega
  unfold open? openUnder?
  rw [if_neg hsize, ← hnonce, List.take_left, List.drop_left, Gcm.decrypt?_append _ _ _ ht]

theorem length_sealWith (key : EnvelopeKey) {nonce : List UInt8} (h : nonce.length = nonceSize)
    (plaintext : List UInt8) : (sealWith key nonce plaintext).length = plaintext.length + minSize := by
  unfold sealWith sealUnder Gcm.encrypt
  dsimp only
  rw [List.length_append, List.length_append, Gcm.length_crypt, Gcm.length_tag, h, minSize, tagSize]
  omega

theorem open?_eq_none_of_short (key : EnvelopeKey) {envelope : List UInt8}
    (h : envelope.length < minSize) : open? key envelope = none := if_pos h

/-- What opens to a plaintext is what the plaintext is sealed in under the nonce it starts with. -/
theorem open?_eq_some {key : EnvelopeKey} {envelope plaintext : List UInt8} :
    open? key envelope = some plaintext ↔
      minSize ≤ envelope.length ∧ envelope = sealWith key (envelope.take nonceSize) plaintext := by
  constructor
  · intro h
    have hsize : minSize ≤ envelope.length := by
      refine Nat.le_of_not_lt fun hshort => ?_
      rw [open?_eq_none_of_short key hshort] at h
      cases h
    obtain ⟨nonce, ciphertext, t, hnonce, ht, rfl⟩ := exists_parts hsize
    refine ⟨hsize, ?_⟩
    rw [open?_append key hnonce ht] at h
    split at h
    · next htag =>
      obtain rfl := Option.some.inj h
      unfold sealWith sealUnder Gcm.encrypt
      dsimp only
      rw [List.take_left' hnonce, Gcm.crypt_crypt, htag]
    · cases h
  · rintro ⟨hsize, hsealed⟩
    have hnonce : (envelope.take nonceSize).length = nonceSize :=
      List.length_take_of_le (Nat.le_trans (Nat.le_add_right nonceSize tagSize) hsize)
    have hopen := open?_sealWith key hnonce plaintext
    rwa [← hsealed] at hopen

/-- Under every key, what is sealed is as much longer as a nonce and a tag are and opens to what it was;
octets open to a plaintext exactly when they are what the plaintext is sealed in under the nonce that
they start with, and to nothing otherwise; and a text opens as the octets that it is the Base64 of, the
blanks at its ends dropped, and to nothing if there are none. -/
theorem opens_exactly_sealed (key : EnvelopeKey) :
    (∀ nonce plaintext, nonce.length = nonceSize →
      (sealWith key nonce plaintext).length = plaintext.length + minSize ∧
        open? key (sealWith key nonce plaintext) = some plaintext) ∧
    (∀ envelope plaintext, open? key envelope = some plaintext ↔
      minSize ≤ envelope.length ∧ envelope = sealWith key (envelope.take nonceSize) plaintext) ∧
    (∀ text envelope, Text.trimmed text.toList = Base64.encodeList envelope →
      openBase64? key text = open? key envelope) ∧
    (∀ text, (∀ envelope, Text.trimmed text.toList ≠ Base64.encodeList envelope) →
      openBase64? key text = none) := by
  refine ⟨fun nonce plaintext h => ⟨length_sealWith key h plaintext, open?_sealWith key h plaintext⟩,
    fun envelope plaintext => open?_eq_some, ?_, ?_⟩
  · intro text envelope htext
    rw [openBase64?, Base64.decodeTrimmed?_eq_some.2 htext]
    rfl
  · intro text hnone
    cases hread : Base64.decodeTrimmed? text with
    | none => rw [openBase64?, hread]; rfl
    | some envelope => exact absurd (Base64.decodeTrimmed?_eq_some.1 hread) (hnone envelope)

/-- Three octets sealed under the key of zeros, and fewer octets than an envelope has. -/
theorem opens_exactly_sealed_zero_key :
    ((sealWith ⟨List.replicate 32 0, rfl⟩ (List.replicate 12 0) [1, 2, 3]).length = 31 ∧
      open? ⟨List.replicate 32 0, rfl⟩
        (sealWith ⟨List.replicate 32 0, rfl⟩ (List.replicate 12 0) [1, 2, 3]) = some [1, 2, 3]) ∧
    open? ⟨List.replicate 32 0, rfl⟩ (List.replicate 27 0) ≠ some [] := by
  obtain ⟨hsealed, hopen, -⟩ := opens_exactly_sealed ⟨List.replicate 32 0, rfl⟩
  refine ⟨hsealed _ [1, 2, 3] rfl, fun hshort => ?_⟩
  have hsize := ((hopen _ _).1 hshort).1
  exact absurd hsize (by decide)

end Envelope

end SealedCustody
