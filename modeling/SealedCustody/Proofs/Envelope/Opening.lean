import SealedCustody.Envelope
import Mathlib.Data.List.Basic

/-!
# Opening what was sealed

What is sealed under a key opens under that key to what it was, and octets written in Base64 are read
back as they were, whether or not blanks are dropped first. An envelope and its key travel as Base64
texts, so both are needed before a record reaches the node that keeps it.

Sealing goes by groups of sixteen octets, each xored with a block of its own; `crypt_crypt` follows
that recursion. Writing Base64 goes by groups of three octets, and `decodeOnto_encodeList` follows that
one.
-/

namespace SealedCustody

/-! ## Galois counter mode -/

namespace Gcm

@[simp]
theorem length_octets (x : Block) : (octets x).length = 16 := by simp [octets]

@[simp]
theorem length_tag (cipher : BlockCipher) (nonce ciphertext : List UInt8) :
    (tag cipher nonce ciphertext).length = 16 :=
  length_octets _

/-- Xoring with the same octets twice changes nothing. -/
theorem zipWith_xor_xor {as ks : List UInt8} (h : as.length ≤ ks.length) :
    List.zipWith (· ^^^ ·) (List.zipWith (· ^^^ ·) as ks) ks = as := by
  induction as generalizing ks with
  | nil => rfl
  | cons a as ih =>
    cases ks with
    | nil => simp at h
    | cons k ks =>
      have hrest : as.length ≤ ks.length := by simpa using h
      rw [List.zipWith_cons_cons, List.zipWith_cons_cons, ih hrest, UInt8.xor_assoc, UInt8.xor_self,
        UInt8.xor_zero]

/-- A group at the front is the first of the groups, if it is full or the last. -/
theorem chunks_append {xs rest : List UInt8} (hne : xs ≠ []) (hle : xs.length ≤ 16)
    (hfull : xs.length = 16 ∨ rest = []) : chunks (xs ++ rest) = xs :: chunks rest := by
  cases xs with
  | nil => exact absurd rfl hne
  | cons x xs =>
    rw [List.length_cons] at hle hfull
    have hlen : xs.length ≤ 15 := Nat.le_of_succ_le_succ hle
    rw [List.cons_append, chunks]
    rcases hfull with hfull | rfl
    · have h15 : xs.length = 15 := Nat.succ.inj hfull
      rw [List.take_left' h15, List.drop_left' h15]
    · rw [List.append_nil, List.take_of_length_le hlen, List.drop_of_length_le hlen]

/-- Encrypting twice from the same counter on changes nothing. -/
theorem crypt_crypt (cipher : BlockCipher) (nonce : List UInt8) (i : Nat) (bs : List UInt8) :
    crypt cipher nonce i (chunks (crypt cipher nonce i (chunks bs))) = bs := by
  induction bs using chunks.induct generalizing i with
  | case1 => simp [chunks, crypt]
  | case2 b bs ih =>
    -- The first group is as long after it was encrypted as before, so it is the first group again: it is
    -- full, or nothing follows it.
    have hgroup : (b :: bs.take 15).length ≤ (octets (cipher (counter nonce i))).length := by
      rw [length_octets, List.length_cons, List.length_take]
      omega
    have hlen : (List.zipWith (· ^^^ ·) (b :: bs.take 15) (octets (cipher (counter nonce i)))).length
        = (b :: bs.take 15).length := by
      rw [List.length_zipWith, Nat.min_eq_left hgroup]
    have hne : List.zipWith (· ^^^ ·) (b :: bs.take 15) (octets (cipher (counter nonce i))) ≠ [] := by
      rw [← List.length_pos_iff, hlen]
      simp
    have hfull : (List.zipWith (· ^^^ ·) (b :: bs.take 15)
          (octets (cipher (counter nonce i)))).length = 16 ∨
        crypt cipher nonce (i + 1) (chunks (bs.drop 15)) = [] := by
      by_cases h15 : 15 ≤ bs.length
      · left
        rw [hlen, List.length_cons, List.length_take]
        omega
      · right
        rw [List.drop_of_length_le (by omega)]
        simp [chunks, crypt]
    have hle := Nat.le_trans (Nat.le_of_eq hlen) (Nat.le_trans hgroup (Nat.le_of_eq (length_octets _)))
    rw [chunks, crypt, chunks_append hne hle hfull, crypt, zipWith_xor_xor hgroup, ih,
      List.cons_append, List.take_append_drop]

theorem decrypt?_encrypt (cipher : BlockCipher) (nonce plaintext : List UInt8) :
    decrypt? cipher nonce (encrypt cipher nonce plaintext) = some plaintext := by
  have hsize : ∀ ciphertext : List UInt8,
      (ciphertext ++ tag cipher nonce ciphertext).length - 16 = ciphertext.length := by
    intro ciphertext
    simp
  unfold decrypt? encrypt
  dsimp only
  rw [if_neg (by simp), hsize, List.take_left, List.drop_left, if_pos rfl, crypt_crypt]

end Gcm

/-! ## Envelopes -/

namespace Envelope

/-- An envelope opens under its key to what was sealed in it. -/
theorem open?_sealWith (key : EnvelopeKey) {nonce : List UInt8} (h : nonce.length = nonceSize)
    (plaintext : List UInt8) : open? key (sealWith key nonce plaintext) = some plaintext := by
  unfold open? openUnder? sealWith sealUnder
  have hsize : ¬ (nonce ++ Gcm.encrypt key.cipher nonce plaintext).length < minSize := by
    simp [Gcm.encrypt, minSize, tagSize, h]
  rw [if_neg hsize, ← h, List.take_left, List.drop_left, Gcm.decrypt?_encrypt]

end Envelope

/-! ## Texts without blanks -/

namespace Text

/-- A text without blanks stays what it is. -/
theorem trimmed_eq_self {cs : List Char} (h : ∀ c ∈ cs, isBlank c = false) :
    trimmed cs = cs := by
  have hdrop : ∀ ds : List Char, (∀ c ∈ ds, isBlank c = false) → dropBlanks ds = ds := by
    intro ds hds
    cases ds with
    | nil => rfl
    | cons d ds =>
      unfold dropBlanks
      rw [List.dropWhile_cons_of_neg]
      simp [hds d List.mem_cons_self]
  unfold trimmed
  rw [hdrop cs h, hdrop cs.reverse (fun c hc => h c (List.mem_reverse.1 hc)), List.reverse_reverse]

end Text

/-! ## Base64 -/

namespace Base64

/-- A digit has the value that it was written for. -/
theorem value?_digit {n : Nat} (h : n < 64) : value? (digit n) = some n := by
  have hall : ∀ k : Fin 64, value? (digit k) = some k.val := by decide
  exact hall ⟨n, h⟩

theorem digit_ne_pad {n : Nat} (h : n < 64) : digit n ≠ '=' := by
  have hall : ∀ k : Fin 64, digit k ≠ '=' := by decide
  exact hall ⟨n, h⟩

theorem isBlank_digit {n : Nat} (h : n < 64) : Text.isBlank (digit n) = false := by
  have hall : ∀ k : Fin 64, Text.isBlank (digit k) = false := by decide
  exact hall ⟨n, h⟩

theorem toUInt8_eq {n : Nat} {a : UInt8} (h : n = a.toNat) : n.toUInt8 = a := by
  rw [h]
  exact UInt8.ofNat_toNat

/-! ### The groups of four -/

theorem lastGroup?_one (a : UInt8) :
    lastGroup? (digit (a.toNat * 16 / 64)) (digit (a.toNat * 16 % 64)) '=' '=' = some [a] := by
  have ha := a.toNat_lt
  have hvalue : a.toNat * 16 / 64 * 64 + a.toNat * 16 % 64 = a.toNat * 16 := by omega
  have hlow : a.toNat * 16 % 64 % 16 = 0 := by omega
  have hoctet : (a.toNat * 16 / 16).toUInt8 = a := toUInt8_eq (by omega)
  simp only [lastGroup?, value?_digit (n := a.toNat * 16 / 64) (by omega),
    value?_digit (n := a.toNat * 16 % 64) (by omega), Option.bind_eq_bind, Option.bind_some,
    if_pos, hvalue, hlow, hoctet]

theorem lastGroup?_two (a b : UInt8) :
    let n := (a.toNat * 256 + b.toNat) * 4
    lastGroup? (digit (n / 4096)) (digit (n / 64 % 64)) (digit (n % 64)) '=' = some [a, b] := by
  intro n
  have ha := a.toNat_lt
  have hb := b.toNat_lt
  have hpad : digit (n % 64) ≠ '=' := digit_ne_pad (by omega)
  have hvalue : (n / 4096 * 64 + n / 64 % 64) * 64 + n % 64 = n := by omega
  have hlow : n % 4 = 0 := by omega
  have hfirst : (n / 1024).toUInt8 = a := toUInt8_eq (by omega)
  have hsecond : (n / 4 % 256).toUInt8 = b := toUInt8_eq (by omega)
  simp only [lastGroup?, value?_digit (n := n / 4096) (by omega),
    value?_digit (n := n / 64 % 64) (by omega), value?_digit (n := n % 64) (by omega),
    Option.bind_eq_bind, Option.bind_some, if_pos, if_neg hpad, hvalue, hlow, hfirst, hsecond]

/-- The number that three octets make, in four digits, is read back. -/
theorem digits_of_three (a b c : UInt8) :
    let n := (a.toNat * 256 + b.toNat) * 256 + c.toNat
    (n / 262144 < 64 ∧ n / 4096 % 64 < 64 ∧ n / 64 % 64 < 64 ∧ n % 64 < 64) ∧
      ((n / 262144 * 64 + n / 4096 % 64) * 64 + n / 64 % 64) * 64 + n % 64 = n ∧
      (n / 65536).toUInt8 = a ∧ (n / 256 % 256).toUInt8 = b ∧ (n % 256).toUInt8 = c := by
  intro n
  have ha := a.toNat_lt
  have hb := b.toNat_lt
  have hc := c.toNat_lt
  refine ⟨⟨by omega, by omega, by omega, by omega⟩, by omega, ?_, ?_, ?_⟩
  · exact toUInt8_eq (by omega)
  · exact toUInt8_eq (by omega)
  · exact toUInt8_eq (by omega)

theorem encodeList_eq_nil {bs : List UInt8} : encodeList bs = [] ↔ bs = [] := by
  rcases bs with _ | ⟨a, _ | ⟨b, _ | ⟨c, rest⟩⟩⟩ <;> simp [encodeList]

theorem decodeOnto_encodeList (done bs : List UInt8) :
    decodeOnto done (encodeList bs) = some (done.reverse ++ bs) := by
  induction bs using encodeList.induct generalizing done with
  | case1 => simp [encodeList, decodeOnto]
  | case2 a =>
    simp only [encodeList]
    rw [decodeOnto, lastGroup?_one]
    rfl
  | case3 a b =>
    have hgroup := lastGroup?_two a b
    simp only [encodeList] at hgroup ⊢
    rw [decodeOnto, hgroup]
    rfl
  | case4 a b c rest ih =>
    have hthree := digits_of_three a b c
    simp only [encodeList] at hthree ⊢
    generalize (a.toNat * 256 + b.toNat) * 256 + c.toNat = n at hthree ⊢
    obtain ⟨⟨h1, h2, h3, h4⟩, hvalue, ha, hb, hc⟩ := hthree
    -- the last group of four is read apart, since it may be padded
    by_cases hrest : rest = []
    · have hgroup : lastGroup? (digit (n / 262144)) (digit (n / 4096 % 64)) (digit (n / 64 % 64))
          (digit (n % 64)) = some [a, b, c] := by
        simp only [lastGroup?, value?_digit h1, value?_digit h2, value?_digit h3, value?_digit h4,
          Option.bind_eq_bind, Option.bind_some, if_neg (digit_ne_pad h4), hvalue, ha, hb, hc]
      rw [hrest, encodeList, decodeOnto, hgroup]
      rfl
    · -- the group is not the last one
      have hmore : encodeList rest ≠ [] := fun h => hrest (encodeList_eq_nil.1 h)
      rw [decodeOnto]
      · simp only [value?_digit h1, value?_digit h2, value?_digit h3, value?_digit h4,
          Option.bind_eq_bind, Option.bind_some, hvalue, ha, hb, hc]
        rw [ih]
        simp
      · exact hmore

/-! ### Whole texts -/

/-- What holds of every digit and of the padding holds of every character that is written. -/
theorem forall_mem_encodeList {P : Char → Prop} (hdigit : ∀ n, n < 64 → P (digit n)) (hpad : P '=')
    (bs : List UInt8) : ∀ c ∈ encodeList bs, P c := by
  induction bs using encodeList.induct with
  | case1 => exact nofun
  | case2 a =>
    have ha := a.toNat_lt
    intro c hc
    simp only [encodeList, List.mem_cons, List.not_mem_nil, or_false] at hc
    rcases hc with rfl | rfl | rfl | rfl
    · exact hdigit _ (by omega)
    · exact hdigit _ (by omega)
    · exact hpad
    · exact hpad
  | case3 a b =>
    have ha := a.toNat_lt
    have hb := b.toNat_lt
    intro c hc
    simp only [encodeList, List.mem_cons, List.not_mem_nil, or_false] at hc
    rcases hc with rfl | rfl | rfl | rfl
    · exact hdigit _ (by omega)
    · exact hdigit _ (by omega)
    · exact hdigit _ (by omega)
    · exact hpad
  | case4 a b c rest ih =>
    obtain ⟨⟨h1, h2, h3, h4⟩, -⟩ := digits_of_three a b c
    intro x hx
    simp only [encodeList, List.mem_cons] at hx
    rcases hx with rfl | rfl | rfl | rfl | hx
    · exact hdigit _ h1
    · exact hdigit _ h2
    · exact hdigit _ h3
    · exact hdigit _ h4
    · exact ih x hx

theorem isBlank_of_mem_encodeList (bs : List UInt8) :
    ∀ c ∈ encodeList bs, Text.isBlank c = false :=
  forall_mem_encodeList (fun _ => isBlank_digit) (by decide) bs

/-- Octets are read back from their Base64 text, also if blanks are dropped. -/
theorem decodeTrimmed?_encode (bs : List UInt8) : decodeTrimmed? (encode bs) = some bs := by
  unfold decodeTrimmed? encode
  rw [String.toList_ofList, Text.trimmed_eq_self (isBlank_of_mem_encodeList bs), decodeOnto_encodeList]
  rfl

end Base64

/-- A key is read back from its Base64 text. -/
theorem EnvelopeKey.ofBase64_toBase64 (k : EnvelopeKey) : ofBase64 k.toBase64 = .ok k := by
  unfold ofBase64 toBase64
  rw [Base64.decodeTrimmed?_encode]
  exact dif_pos k.size_eq

end SealedCustody
