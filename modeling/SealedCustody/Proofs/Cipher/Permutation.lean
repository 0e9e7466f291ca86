import SealedCustody.Proofs.Envelope.Opening
import Mathlib.Data.List.Induction
import Mathlib.Data.List.Nodup
import Mathlib.Data.Nat.ModEq

/-!
# The block cipher loses nothing

Two blocks that are encrypted to the same block under a key of 32 octets are the same block
(`cipher_injective`). Each step of a round is undone by something: a substitution by the only octet
with that substitute, a key by xoring it once more, and the steps that move and mix octets by taking
them three more times, since both have order four. `rounds_injective` goes down the round keys with
that. Every round key has sixteen octets, which is what the expansion of the key keeps of its words.
-/

namespace SealedCustody

namespace Aes256

/-! ## Octets -/

/-- What holds of the 256 numbers of an octet holds of every octet. -/
theorem octet_induction {P : UInt8 → Prop} (h : ∀ n : Fin 256, P n.val.toUInt8) (b : UInt8) :
    P b := by
  have hb := h ⟨b.toNat, b.toNat_lt⟩
  simpa using hb

/-- No octet is listed twice among the substitutes. -/
theorem substitute_injective : Function.Injective substitute := by
  have hnodup : (substitution.toList.map UInt8.toNat).Nodup := by decide +kernel
  have hsize : substitution.size = 256 := by decide +kernel
  have hbound (a : UInt8) : a.toNat < substitution.size := by
    rw [hsize]
    exact a.toNat_lt
  intro a b h
  have ha : a.toNat < substitution.toList.length := hbound a
  have hb : b.toNat < substitution.toList.length := hbound b
  have hget : substitution.toList[a.toNat] = substitution.toList[b.toNat] := by
    rw [substitute, substitute, Array.getD, Array.getD, dif_pos (hbound a), dif_pos (hbound b)] at h
    exact h
  exact UInt8.toNat_inj.1 ((hnodup.of_map _).getElem_inj_iff.1 hget)

/-- The double of an octet is its shift, and its first bit decides what that is reduced by. -/
theorem double_xor (a b : UInt8) : double (a ^^^ b) = double a ^^^ double b := by
  have hdouble : ∀ c : UInt8, double c = (c <<< 1) ^^^ ((c >>> 7) * (0x1b : UInt8)) :=
    octet_induction (by decide +kernel)
  have hbit : ∀ c : UInt8, c >>> 7 = 0 ∨ c >>> 7 = 1 := octet_induction (by decide +kernel)
  have hreduced : (a >>> 7 ^^^ b >>> 7) * (0x1b : UInt8)
      = ((a >>> 7) * (0x1b : UInt8)) ^^^ ((b >>> 7) * (0x1b : UInt8)) := by
    rcases hbit a with ha | ha <;> rcases hbit b with hb | hb <;> rw [ha, hb] <;> rfl
  rw [hdouble, hdouble, hdouble, UInt8.shiftLeft_xor, UInt8.shiftRight_xor, hreduced]
  ac_rfl

theorem xor_left_comm (a b c : UInt8) : a ^^^ (b ^^^ c) = b ^^^ (a ^^^ c) := by ac_rfl

theorem xor_cancel (a b : UInt8) : a ^^^ (a ^^^ b) = b := by
  rw [← UInt8.xor_assoc, UInt8.xor_self, UInt8.zero_xor]

/-! ## The steps of a round -/

theorem length_xor {xs ys : List UInt8} (h : xs.length = ys.length) :
    (xor xs ys).length = xs.length := by
  rw [xor, List.length_zipWith, ← h, Nat.min_self]

theorem xor_right_injective {key xs ys : List UInt8} (hx : xs.length = key.length)
    (hy : ys.length = key.length) (h : xor xs key = xor ys key) : xs = ys := by
  have hagain := congrArg (List.zipWith (· ^^^ ·) · key) h
  rwa [xor, xor, Gcm.zipWith_xor_xor (Nat.le_of_eq hx), Gcm.zipWith_xor_xor (Nat.le_of_eq hy)] at hagain

theorem length_shiftRows (xs : List UInt8) : (shiftRows xs).length = xs.length := by
  unfold shiftRows
  split <;> rfl

theorem shiftRows_four : ∀ {xs : List UInt8}, xs.length = 16 →
    shiftRows (shiftRows (shiftRows (shiftRows xs))) = xs
  | [_, _, _, _, _, _, _, _, _, _, _, _, _, _, _, _], _ => rfl

theorem shiftRows_injective {xs ys : List UInt8} (hx : xs.length = 16) (hy : ys.length = 16)
    (h : shiftRows xs = shiftRows ys) : xs = ys := by
  rw [← shiftRows_four hx, h, shiftRows_four hy]

theorem length_mixColumns {xs : List UInt8} {n : ℕ} (h : xs.length = 4 * n) :
    (mixColumns xs).length = 4 * n := by
  induction n generalizing xs with
  | zero =>
    obtain rfl := List.length_eq_zero_iff.1 h
    rfl
  | succ n ih =>
    match xs, h with
    | a :: b :: c :: d :: rest, h =>
      simp only [List.length_cons] at h
      have hrest : rest.length = 4 * n := by omega
      simp only [mixColumns, List.length_cons, ih hrest]
      omega

/-- The matrix of the columns, squared: an octet changes by the fourfold of what it differs in from the
one opposite. -/
theorem mixColumns_twice (a b c d : UInt8) (rest : List UInt8) :
    mixColumns (mixColumns (a :: b :: c :: d :: rest)) =
      (a ^^^ double (double (a ^^^ c))) :: (b ^^^ double (double (b ^^^ d))) ::
        (c ^^^ double (double (a ^^^ c))) :: (d ^^^ double (double (b ^^^ d))) ::
          mixColumns (mixColumns rest) := by
  simp only [mixColumns, double_xor, UInt8.xor_assoc, UInt8.xor_comm, xor_left_comm, xor_cancel,
    UInt8.xor_self, UInt8.xor_zero, UInt8.zero_xor]

theorem mixColumns_four {xs : List UInt8} {n : ℕ} (h : xs.length = 4 * n) :
    mixColumns (mixColumns (mixColumns (mixColumns xs))) = xs := by
  induction n generalizing xs with
  | zero =>
    obtain rfl := List.length_eq_zero_iff.1 h
    rfl
  | succ n ih =>
    match xs, h with
    | a :: b :: c :: d :: rest, h =>
      simp only [List.length_cons] at h
      have hrest : rest.length = 4 * n := by omega
      rw [mixColumns_twice, mixColumns_twice, ih hrest]
      simp only [double_xor, UInt8.xor_comm, xor_left_comm, UInt8.xor_self, UInt8.xor_zero]

theorem mixColumns_injective {xs ys : List UInt8} {n : ℕ} (hx : xs.length = 4 * n)
    (hy : ys.length = 4 * n) (h : mixColumns xs = mixColumns ys) : xs = ys := by
  rw [← mixColumns_four hx, h, mixColumns_four hy]

/-! ## Rounds -/

section

variable {s t : List UInt8} (hs : s.length = 16) (ht : t.length = 16)

/-- What every round starts with. -/
theorem length_shiftRows_map (s : List UInt8) :
    (shiftRows (s.map substitute)).length = s.length := by
  rw [length_shiftRows, List.length_map]

include hs in
theorem length_mixed : (mixColumns (shiftRows (s.map substitute))).length = 16 :=
  length_mixColumns (n := 4) ((length_shiftRows_map s).trans hs)

include hs ht

theorem shiftRows_map_injective (h : shiftRows (s.map substitute) = shiftRows (t.map substitute)) :
    s = t := by
  have hmap : s.map substitute = t.map substitute :=
    shiftRows_injective ((List.length_map _).trans hs) ((List.length_map _).trans ht) h
  exact List.map_injective_iff.2 substitute_injective hmap

theorem mixed_injective (h : mixColumns (shiftRows (s.map substitute))
    = mixColumns (shiftRows (t.map substitute))) : s = t :=
  shiftRows_map_injective hs ht (mixColumns_injective (n := 4)
    ((length_shiftRows_map s).trans hs) ((length_shiftRows_map t).trans ht) h)

end

theorem length_rounds {keys : List (List UInt8)} (hkeys : ∀ key ∈ keys, key.length = 16)
    {s : List UInt8} (hs : s.length = 16) : (rounds s keys).length = 16 := by
  induction keys generalizing s with
  | nil => exact hs
  | cons key keys ih =>
    have hkey := hkeys key List.mem_cons_self
    cases keys with
    | nil =>
      have hlength := (length_shiftRows_map s).trans hs
      exact (length_xor (hlength.trans hkey.symm)).trans hlength
    | cons next keys =>
      rw [rounds.eq_3 _ _ _ (List.cons_ne_nil _ _)]
      have hmixed := length_mixed hs
      exact ih (fun k hk => hkeys k (List.mem_cons_of_mem _ hk))
        ((length_xor (hmixed.trans hkey.symm)).trans hmixed)

theorem rounds_injective {keys : List (List UInt8)} (hkeys : ∀ key ∈ keys, key.length = 16)
    {s t : List UInt8} (hs : s.length = 16) (ht : t.length = 16)
    (h : rounds s keys = rounds t keys) : s = t := by
  induction keys generalizing s t with
  | nil => exact h
  | cons key keys ih =>
    have hkey := hkeys key List.mem_cons_self
    cases keys with
    | nil =>
      -- the last round, which does not mix columns
      have hshifted : shiftRows (s.map substitute) = shiftRows (t.map substitute) :=
        xor_right_injective (((length_shiftRows_map s).trans hs).trans hkey.symm)
          (((length_shiftRows_map t).trans ht).trans hkey.symm) h
      exact shiftRows_map_injective hs ht hshifted
    | cons next keys =>
      rw [rounds.eq_3 _ _ _ (List.cons_ne_nil _ _), rounds.eq_3 _ _ _ (List.cons_ne_nil _ _)] at h
      have hms := (length_mixed hs).trans hkey.symm
      have hmt := (length_mixed ht).trans hkey.symm
      have hxored := ih (fun k hk => hkeys k (List.mem_cons_of_mem _ hk))
        ((length_xor hms).trans (length_mixed hs)) ((length_xor hmt).trans (length_mixed ht)) h
      exact mixed_injective hs ht (xor_right_injective hms hmt hxored)

section

variable {keys : List (List UInt8)} (hkeys : ∀ key ∈ keys, key.length = 16)
include hkeys

theorem length_encryptWith {s : List UInt8} (hs : s.length = 16) :
    (encryptWith keys s).length = 16 := by
  cases keys with
  | nil => exact hs
  | cons first rest =>
    have hfirst := hs.trans (hkeys first List.mem_cons_self).symm
    exact length_rounds (fun k hk => hkeys k (List.mem_cons_of_mem _ hk))
      ((length_xor hfirst).trans hs)

theorem encryptWith_injective {s t : List UInt8} (hs : s.length = 16) (ht : t.length = 16)
    (h : encryptWith keys s = encryptWith keys t) : s = t := by
  cases keys with
  | nil => exact h
  | cons first rest =>
    have hfirst := hkeys first List.mem_cons_self
    have hxored : xor s first = xor t first :=
      rounds_injective (fun k hk => hkeys k (List.mem_cons_of_mem _ hk))
        ((length_xor (hs.trans hfirst.symm)).trans hs) ((length_xor (ht.trans hfirst.symm)).trans ht) h
    exact xor_right_injective (hs.trans hfirst.symm) (ht.trans hfirst.symm) hxored

end

/-! ## The expanded key -/

/-- Groups are of four, and what is in them was in the list. -/
theorem groups_spec {α : Type} (xs : List α) :
    ∀ group ∈ groups xs, group.length = 4 ∧ ∀ a ∈ group, a ∈ xs := by
  induction xs using groups.induct with
  | case1 a b c d rest ih =>
    intro group hgroup
    rw [groups, List.mem_cons] at hgroup
    rcases hgroup with rfl | hgroup
    · refine ⟨rfl, fun x hx => ?_⟩
      have hfront : x ∈ [a, b, c, d] ++ rest := List.mem_append_left _ hx
      exact hfront
    · obtain ⟨hlength, hmem⟩ := ih group hgroup
      exact ⟨hlength, fun x hx => List.mem_append_right [a, b, c, d] (hmem x hx)⟩
  | case2 xs hshort =>
    intro group hgroup
    rw [groups.eq_2 _ hshort] at hgroup
    exact absurd hgroup List.not_mem_nil

theorem length_groups {α : Type} {xs : List α} {n : ℕ} (h : xs.length = 4 * n) :
    (groups xs).length = n := by
  induction n generalizing xs with
  | zero =>
    obtain rfl := List.length_eq_zero_iff.1 h
    rfl
  | succ n ih =>
    match xs, h with
    | a :: b :: c :: d :: rest, h =>
      simp only [List.length_cons] at h
      rw [groups, List.length_cons, ih (by omega)]

theorem length_headD {words : List (List UInt8)} (hne : words ≠ [])
    (hwords : ∀ word ∈ words, word.length = 4) : (words.headD []).length = 4 := by
  cases words with
  | nil => exact absurd rfl hne
  | cons word words => exact hwords word List.mem_cons_self

/-- Every word that the expansion adds has four octets, as the words it starts from. -/
theorem expandKey_words (n i : ℕ) (constant : UInt8) {words : List (List UInt8)}
    (hcount : 8 ≤ words.length) (hwords : ∀ word ∈ words, word.length = 4) :
    ∀ word ∈ expandKey n i constant words, word.length = 4 := by
  induction n generalizing i constant words with
  | zero => exact hwords
  | succ n ih =>
    have hlast : (words.headD []).length = 4 :=
      length_headD (List.ne_nil_of_length_pos (by omega)) hwords
    have hback : ((words.drop 7).headD []).length = 4 := by
      refine length_headD (List.ne_nil_of_length_pos ?_) fun word hword =>
        hwords word (List.mem_of_mem_drop hword)
      rw [List.length_drop]
      omega
    have hnext : ∀ mixed : List UInt8, mixed.length = 4 →
        ∀ word ∈ xor ((words.drop 7).headD []) mixed :: words, word.length = 4 := by
      intro mixed hmixed word hword
      rcases List.mem_cons.1 hword with rfl | hword
      · exact (length_xor (hback.trans hmixed.symm)).trans hback
      · exact hwords word hword
    have hmore : ∀ word : List UInt8, 8 ≤ (word :: words).length := fun word => by
      rw [List.length_cons]
      omega
    rw [expandKey]
    dsimp only
    split
    · refine ih (i + 1) _ (hmore _) (hnext _ ?_)
      -- the rotation of a word of four octets
      split
      · rfl
      · exact (List.length_map _).trans hlast
    · refine ih (i + 1) _ (hmore _) (hnext _ ?_)
      split
      · exact (List.length_map _).trans hlast
      · exact hlast

theorem length_roundKeys {key : List UInt8} (h : key.length = 32) :
    ∀ roundKey ∈ roundKeys key, roundKey.length = 16 := by
  have hwords : ∀ word ∈ expandKey 52 8 1 (groups key).reverse, word.length = 4 := by
    refine expandKey_words 52 8 1 ?_ fun word hword =>
      (groups_spec key word (List.mem_reverse.1 hword)).1
    rw [List.length_reverse, length_groups (n := 8) h]
  intro roundKey hroundKey
  obtain ⟨group, hgroup, rfl⟩ := List.mem_map.1 hroundKey
  obtain ⟨hfour, hmem⟩ := groups_spec _ group hgroup
  have hlengths : group.map List.length = List.replicate 4 4 := by
    refine List.eq_replicate_iff.2 ⟨(List.length_map _).trans hfour, fun n hn => ?_⟩
    obtain ⟨word, hword, rfl⟩ := List.mem_map.1 hn
    exact hwords word (List.mem_reverse.1 (hmem word hword))
  rw [List.length_flatten, hlengths]
  rfl

end Aes256

/-! ## Blocks and their octets -/

namespace Gcm

theorem number_concat (bs : List UInt8) (b : UInt8) :
    number (bs ++ [b]) = number bs * 256 + b.toNat :=
  List.foldl_append

theorem number_lt (bs : List UInt8) : number bs < 256 ^ bs.length := by
  induction bs using List.reverseRecOn with
  | nil => exact Nat.one_pos
  | append_singleton bs b ih =>
    have hb := b.toNat_lt
    rw [number_concat, List.length_append, List.length_singleton, pow_succ]
    omega

theorem number_injective {as bs : List UInt8} (hlength : as.length = bs.length)
    (h : number as = number bs) : as = bs := by
  induction as using List.reverseRecOn generalizing bs with
  | nil => exact (List.length_eq_zero_iff.1 hlength.symm).symm
  | append_singleton as a ih =>
    obtain rfl | ⟨bs, b, rfl⟩ := List.eq_nil_or_concat bs
    · simp at hlength
    · have ha := a.toNat_lt
      have hb := b.toNat_lt
      rw [List.concat_eq_append] at h hlength ⊢
      rw [number_concat, number_concat] at h
      have hrest : as = bs := ih (by simpa using hlength) (by omega)
      have hlast : a = b := UInt8.toNat_inj.1 (by omega)
      rw [hrest, hlast]

theorem toNat_block {bs : List UInt8} (h : bs.length ≤ 16) :
    (block bs).toNat = number bs * 256 ^ (16 - bs.length) := by
  have hlt : number bs * 256 ^ (16 - bs.length) < 2 ^ 128 := by
    calc number bs * 256 ^ (16 - bs.length)
        < 256 ^ bs.length * 256 ^ (16 - bs.length) :=
          Nat.mul_lt_mul_of_pos_right (number_lt bs) (Nat.pow_pos (by decide))
      _ = 2 ^ 128 := by
          rw [← pow_add, Nat.add_sub_cancel' h]
          rfl
  exact (BitVec.toNat_ofNat _ _).trans (Nat.mod_eq_of_lt hlt)

theorem block_injective {as bs : List UInt8} (hlength : as.length = bs.length) (ha : as.length ≤ 16)
    (h : block as = block bs) : as = bs := by
  have hnumber : number as * 256 ^ (16 - as.length) = number bs * 256 ^ (16 - as.length) := by
    rw [← toNat_block ha, h, toNat_block (hlength ▸ ha), hlength]
  exact number_injective hlength (Nat.eq_of_mul_eq_mul_right (Nat.pow_pos (by decide)) hnumber)

/-- A number below a power of 256 is known from its digits. -/
theorem eq_of_digits {m n k : ℕ} (hm : m < 256 ^ k) (hn : n < 256 ^ k)
    (h : ∀ i < k, m / 256 ^ i % 256 = n / 256 ^ i % 256) : m = n := by
  have hmod : ∀ j ≤ k, m % 256 ^ j = n % 256 ^ j := by
    intro j hj
    induction j with
    | zero => rw [pow_zero, Nat.mod_one, Nat.mod_one]
    | succ j ih => rw [Nat.mod_pow_succ, Nat.mod_pow_succ, ih (by omega), h j (by omega)]
  rw [← Nat.mod_eq_of_lt hm, hmod k (Nat.le_refl k), Nat.mod_eq_of_lt hn]

theorem octets_injective : Function.Injective octets := by
  intro x y h
  refine BitVec.eq_of_toNat_eq (eq_of_digits (k := 16) x.isLt y.isLt fun i hi => ?_)
  have hi : i ∈ (List.range 16).reverse := List.mem_reverse.2 (List.mem_range.2 hi)
  have hdigit := congrArg UInt8.toNat (List.map_inj_left.1 h i hi)
  have hvalue (n : ℕ) : (n % 256).toUInt8.toNat = n % 256 := Nat.mod_mod n 256
  rwa [hvalue, hvalue] at hdigit

/-- The low 32 bits of a nonce's block are free for the counter. -/
theorem counter_injective {as bs : List UInt8} (ha : as.length = 12) (hb : bs.length = 12) {i : ℕ}
    (h : counter as i = counter bs i) : as = bs := by
  have hshift (cs : List UInt8) (hc : cs.length = 12) : (counter cs i).toNat >>> 32 = number cs := by
    have hcounter : i % UInt32.size < 2 ^ 32 := Nat.mod_lt i (by decide)
    have hlow : (BitVec.ofNat 128 (i % UInt32.size)).toNat >>> 32 = 0 := by
      rw [BitVec.toNat_ofNat, Nat.mod_eq_of_lt (by omega), Nat.shiftRight_eq_div_pow]
      exact Nat.div_eq_of_lt hcounter
    have hhigh : (block cs).toNat >>> 32 = number cs := by
      rw [toNat_block (by omega), hc, Nat.shiftRight_eq_div_pow]
      exact Nat.mul_div_cancel (number cs) (by decide)
    rw [counter, BitVec.toNat_or, Nat.shiftRight_or_distrib, hhigh, hlow, Nat.or_zero]
  refine number_injective (ha.trans hb.symm) ?_
  rw [← hshift as ha, h, hshift bs hb]

end Gcm

/-- Under a key, different blocks are encrypted differently. -/
theorem EnvelopeKey.cipher_injective (key : EnvelopeKey) : Function.Injective key.cipher := by
  have hkeys := Aes256.length_roundKeys key.size_eq
  have hlength (x : Gcm.Block) :
      (Aes256.encryptWith (Aes256.roundKeys key.octets) (Gcm.octets x)).length = 16 :=
    Aes256.length_encryptWith hkeys (Gcm.length_octets x)
  intro x y h
  have hencrypted : Aes256.encryptWith (Aes256.roundKeys key.octets) (Gcm.octets x)
      = Aes256.encryptWith (Aes256.roundKeys key.octets) (Gcm.octets y) :=
    Gcm.block_injective ((hlength x).trans (hlength y).symm) (Nat.le_of_eq (hlength x)) h
  exact Gcm.octets_injective (Aes256.encryptWith_injective hkeys (Gcm.length_octets x)
    (Gcm.length_octets y) hencrypted)

end SealedCustody
