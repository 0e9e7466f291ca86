import SealedCustody.Cipher.Gcm
import Mathlib.Algebra.CharP.Two
import Mathlib.FieldTheory.Finite.Extension
import Mathlib.Tactic.ComputeDegree

/-!
# The field that tags are computed in

A block is a polynomial over the field of two elements, its first bit the constant coefficient.
`valueAt r x` is the value of the block `x` at an element `r` of any ring of characteristic two, and
`valueAt_mul` says that the product of blocks is the product of their values wherever
`r ^ 128 = r ^ 7 + r ^ 2 + r + 1`.

In the ring of polynomials modulo `modulus` the variable is such an element, so blocks multiply there as
they do in hashes. `irreducible_modulus` makes that ring a field, hence a factor other than zero cancels
(`eq_of_mul_eq`). It is Rabin's test: the variable is its own power `2 ^ 128`, and what its power
`2 ^ 64` differs from it in has an inverse. Both facts are about products of blocks and are computed.
-/

namespace SealedCustody.Gcm

open Polynomial

section

variable {R : Type*} [CommRing R]

/-! ## The value of a block -/

/-- A bit as an element. -/
def ofBit (b : Bool) : R := if b then 1 else 0

/-- What the last `n` bits of a block spell in powers of an element, the first of them with power zero. -/
def spelled (r : R) (x : Block) : ℕ → R
  | 0 => 0
  | n + 1 => ofBit (x.getLsbD n) + r * spelled r x n

/-- The polynomial that a block is, at an element. -/
def valueAt (r : R) (x : Block) : R := spelled r x 128

/-- The block that is a power of the variable. -/
def xPower (k : ℕ) : Block := BitVec.twoPow 128 (127 - k)

@[simp]
theorem ofBit_true : (ofBit true : R) = 1 := rfl

@[simp]
theorem ofBit_false : (ofBit false : R) = 0 := rfl

theorem spelled_succ (r : R) (x : Block) (n : ℕ) :
    spelled r x (n + 1) = ofBit (x.getLsbD n) + r * spelled r x n := rfl

theorem spelled_eq_zero {r : R} {x : Block} {n : ℕ} (h : ∀ i < n, x.getLsbD i = false) :
    spelled r x n = 0 := by
  induction n with
  | zero => rfl
  | succ n ih =>
    rw [spelled_succ, h n (Nat.lt_succ_self n), ih fun i hi => h i (Nat.lt_succ_of_lt hi), mul_zero,
      ofBit_false, add_zero]

theorem valueAt_zero (r : R) : valueAt r 0 = 0 := spelled_eq_zero fun _ _ => BitVec.getLsbD_zero

/-- A shift raises every bit to the next power and loses the last one. -/
theorem spelled_succ_shift (r : R) (v : Block) (n : ℕ) :
    spelled r v (n + 1) = spelled r (v >>> 1) n + ofBit (v.getLsbD 0) * r ^ n := by
  induction n with
  | zero => simp [spelled]
  | succ n ih =>
    have hbit : (v >>> 1).getLsbD n = v.getLsbD (n + 1) := by
      rw [BitVec.getLsbD_ushiftRight, Nat.add_comm]
    rw [spelled_succ, ih, spelled_succ, hbit]
    ring

theorem spelled_twoPow (r : R) {i : ℕ} (hi : i < 128) (k : ℕ) :
    spelled r (BitVec.twoPow 128 i) (i + 1 + k) = r ^ k := by
  induction k with
  | zero =>
    have hlow : spelled r (BitVec.twoPow 128 i) i = 0 := spelled_eq_zero fun j hj => by
      rw [BitVec.getLsbD_twoPow]
      simp [Nat.ne_of_gt hj]
    have hbit : (BitVec.twoPow 128 i).getLsbD i = true := by
      rw [BitVec.getLsbD_twoPow]
      simp [hi]
    rw [Nat.add_zero, spelled_succ, hlow, hbit, ofBit_true, mul_zero, add_zero, pow_zero]
  | succ k ih =>
    have hbit : (BitVec.twoPow 128 i).getLsbD (i + 1 + k) = false := by
      rw [BitVec.getLsbD_twoPow]
      simp [Nat.add_assoc]
    rw [← Nat.add_assoc, spelled_succ, ih, hbit, pow_succ', ofBit_false, zero_add]

theorem valueAt_xPower (r : R) {k : ℕ} (hk : k < 128) : valueAt r (xPower k) = r ^ k := by
  have hspelled := spelled_twoPow r (i := 127 - k) (by omega) k
  rwa [show 127 - k + 1 + k = 128 by omega] at hspelled

theorem map_spelled {S : Type*} [CommRing S] (f : R →+* S) (r : R) (x : Block) (n : ℕ) :
    f (spelled r x n) = spelled (f r) x n := by
  induction n with
  | zero => exact map_zero f
  | succ n ih =>
    have hbit : f (ofBit (x.getLsbD n)) = ofBit (x.getLsbD n) := by
      cases x.getLsbD n with
      | false => exact map_zero f
      | true => exact map_one f
    rw [spelled_succ, spelled_succ, map_add, map_mul, hbit, ih]

/-! ## Sums and products -/

variable [CharP R 2]

theorem spelled_xor (r : R) (x y : Block) (n : ℕ) :
    spelled r (x ^^^ y) n = spelled r x n + spelled r y n := by
  induction n with
  | zero => exact (add_zero 0).symm
  | succ n ih =>
    have hbit : (ofBit (x.getLsbD n ^^ y.getLsbD n) : R) =
        ofBit (x.getLsbD n) + ofBit (y.getLsbD n) := by
      cases x.getLsbD n <;> cases y.getLsbD n <;> simp [CharTwo.add_self_eq_zero]
    rw [spelled_succ, spelled_succ, spelled_succ, BitVec.getLsbD_xor, hbit, ih]
    ring

theorem valueAt_xor (r : R) (x y : Block) : valueAt r (x ^^^ y) = valueAt r x + valueAt r y :=
  spelled_xor r x y 128

theorem valueAt_reduction (r : R) : valueAt r reduction = r ^ 7 + r ^ 2 + r + 1 := by
  have hsum : reduction = xPower 7 ^^^ xPower 2 ^^^ xPower 1 ^^^ xPower 0 := by decide +kernel
  rw [hsum, valueAt_xor, valueAt_xor, valueAt_xor, valueAt_xPower r (by decide),
    valueAt_xPower r (by decide), valueAt_xPower r (by decide), valueAt_xPower r (by decide),
    pow_one, pow_zero]

section

variable {r : R} (hr : r ^ 128 = r ^ 7 + r ^ 2 + r + 1)
include hr

theorem valueAt_timesX (v : Block) : valueAt r (timesX v) = r * valueAt r v := by
  have hfirst : (v >>> 1).getLsbD 127 = false := by
    rw [BitVec.getLsbD_ushiftRight]
    exact BitVec.getLsbD_of_ge v 128 (Nat.le_refl 128)
  -- The bit that the shift loses stands for `r ^ 128`, which the reduction puts back in lower powers.
  have hshift : r * valueAt r v = valueAt r (v >>> 1) + ofBit (v.getLsbD 0) * r ^ 128 := by
    rw [valueAt, valueAt, spelled_succ_shift r v 127, spelled_succ r (v >>> 1) 127, hfirst, ofBit_false]
    ring
  rw [hshift, timesX]
  cases v.getLsbD 0 with
  | true => rw [if_pos rfl, valueAt_xor, valueAt_reduction, hr, ofBit_true, one_mul]
  | false => rw [if_neg Bool.false_ne_true, ofBit_false, zero_mul, add_zero]

/-- After some bits of the first factor, the sum so far and what the bits left contribute. -/
theorem valueAt_mulFrom (x : Block) (n : ℕ) (v z : Block) :
    valueAt r (mulFrom x n v z) = valueAt r z + spelled r x n * valueAt r v := by
  induction n generalizing v z with
  | zero => rw [mulFrom, spelled, zero_mul, add_zero]
  | succ n ih =>
    rw [mulFrom, ih, valueAt_timesX hr, spelled_succ]
    cases x.getLsbD n with
    | true =>
      rw [if_pos rfl, valueAt_xor, ofBit_true]
      ring
    | false =>
      rw [if_neg Bool.false_ne_true, ofBit_false]
      ring

/-- The product of two blocks has the product of their values. -/
theorem valueAt_mul (x y : Block) : valueAt r (mul x y) = valueAt r x * valueAt r y := by
  rw [mul, valueAt_mulFrom hr, valueAt_zero, zero_add]
  rfl

end

end

/-! ## The modulus -/

/-- The polynomial that products are reduced by. -/
@[irreducible]
noncomputable def modulus : (ZMod 2)[X] := X ^ 128 + (X ^ 7 + X ^ 2 + X + 1)

theorem modulus_eq : modulus = X ^ 128 + (X ^ 7 + X ^ 2 + X + 1) := by
  unfold modulus
  rfl

theorem modulus_monic : modulus.Monic := by
  rw [modulus_eq]
  refine monic_X_pow_add ?_
  compute_degree!

theorem natDegree_modulus : modulus.natDegree = 128 := by
  rw [modulus_eq]
  compute_degree!

theorem degree_modulus : modulus.degree = 128 := by
  rw [degree_eq_natDegree modulus_monic.ne_zero, natDegree_modulus]
  rfl

instance : CharP (AdjoinRoot modulus) 2 := by
  have hdegree : modulus.degree ≠ 0 := by
    rw [degree_modulus]
    decide
  exact charP_of_injective_ringHom (AdjoinRoot.of.injective_of_degree_ne_zero hdegree) 2

/-- The element that blocks are evaluated at. -/
noncomputable def root : AdjoinRoot modulus := AdjoinRoot.root modulus

theorem root_pow : root ^ 128 = root ^ 7 + root ^ 2 + root + 1 := by
  have hzero : AdjoinRoot.mk modulus (X ^ 128 + (X ^ 7 + X ^ 2 + X + 1)) = 0 := by
    rw [AdjoinRoot.mk_eq_zero, ← modulus_eq]
  rw [map_add, map_add, map_add, map_add, map_pow, map_pow, map_pow, map_one, AdjoinRoot.mk_X]
    at hzero
  exact CharTwo.add_eq_zero.1 hzero

theorem mk_valueAt (x : Block) : AdjoinRoot.mk modulus (valueAt X x) = valueAt root x := by
  rw [valueAt, map_spelled, AdjoinRoot.mk_X, valueAt, root]

theorem mk_X_pow (n : ℕ) : AdjoinRoot.mk modulus (X ^ n) = root ^ n := by
  rw [map_pow, AdjoinRoot.mk_X, root]

/-! ## A test of irreducibility -/

/-- A polynomial of degree `2 ^ (k + 1)` that divides `X ^ 2 ^ 2 ^ (k + 1) - X` and has no factor in
common with `X ^ 2 ^ 2 ^ k - X` is irreducible: the degree of an irreducible factor divides `2 ^ (k + 1)`
by the first and not `2 ^ k` by the second. -/
theorem irreducible_of_frobenius {f : (ZMod 2)[X]} {m k : ℕ} (hm : m = 2 ^ k)
    (hdegree : f.natDegree = 2 * m) (hfix : f ∣ X ^ 2 ^ (2 * m) - X)
    (hhalf : IsCoprime f (X ^ 2 ^ m - X)) : Irreducible f := by
  have hpos : f.natDegree ≠ 0 := by
    rw [hdegree, hm]
    positivity
  have hne : f ≠ 0 := fun hzero => hpos (hzero ▸ natDegree_zero)
  have hunit : ¬ IsUnit f := fun hunit => hpos (natDegree_eq_zero_of_isUnit hunit)
  obtain ⟨g, hg, hgf⟩ := WfDvdMonoid.exists_irreducible_factor hunit hne
  have hdvd_iff (n : ℕ) : g.natDegree ∣ n ↔ g ∣ X ^ 2 ^ n - X := by
    rw [hg.natDegree_dvd_iff_dvd_X_pow_card_pow_sub_X, Nat.card_zmod]
  obtain ⟨j, hj, hgdegree⟩ : ∃ j ≤ k + 1, g.natDegree = 2 ^ j := by
    refine (Nat.dvd_prime_pow Nat.prime_two).1 ?_
    rw [pow_succ', ← hm]
    exact (hdvd_iff _).2 (hgf.trans hfix)
  have hjk : ¬ j ≤ k := fun hle => by
    have hghalf : g ∣ X ^ 2 ^ m - X := by
      rw [← hdvd_iff, hgdegree, hm]
      exact Nat.pow_dvd_pow 2 hle
    exact hg.not_isUnit (hhalf.isUnit_of_dvd' hgf hghalf)
  have hsame : f.natDegree ≤ g.natDegree := by
    rw [hdegree, hgdegree, hm, ← pow_succ']
    exact Nat.pow_le_pow_right two_pos (by omega)
  exact (associated_of_dvd_of_natDegree_le hgf hne hsame).irreducible hg

theorem isCoprime_of_dvd {f g i : (ZMod 2)[X]} (h : f ∣ i * g - 1) : IsCoprime f g := by
  obtain ⟨q, hq⟩ := h
  refine ⟨-q, i, ?_⟩
  rw [neg_mul, mul_comm q, ← hq, neg_sub, sub_add_cancel]

/-! ## The modulus passes the test -/

/-- The square of a block. -/
def square (x : Block) : Block := mul x x

/-- The power `2 ^ 64` of the variable. -/
def halfway : Block := 0x6f9945a9e519a7229d4c1ad657f8a686

/-- The inverse of the sum of `halfway` and the variable. -/
def halfwayInverse : Block := 0x180da934bf53158251c13dbb149f5279

theorem square_xPower : square^[64] (xPower 1) = halfway := by decide +kernel

theorem square_halfway : square^[64] halfway = xPower 1 := by decide +kernel

theorem mul_halfwayInverse : mul halfwayInverse (halfway ^^^ xPower 1) = xPower 0 := by
  decide +kernel

theorem valueAt_square (n : ℕ) (x : Block) :
    valueAt root (square^[n] x) = valueAt root x ^ 2 ^ n := by
  induction n generalizing x with
  | zero => rw [pow_zero, pow_one]; rfl
  | succ n ih =>
    rw [Function.iterate_succ_apply, ih, square, valueAt_mul root_pow, ← sq, ← pow_mul, pow_succ']

theorem valueAt_halfway : valueAt root halfway = root ^ 2 ^ 64 := by
  rw [← square_xPower, valueAt_square, valueAt_xPower root (by decide), pow_one]

theorem root_pow_fix : root ^ 2 ^ (2 * 64) = root := by
  have hvalue := valueAt_square 64 halfway
  rw [square_halfway, valueAt_xPower root (by decide), pow_one, valueAt_halfway, ← pow_mul,
    ← pow_add, ← two_mul] at hvalue
  exact hvalue.symm

theorem valueAt_halfwayInverse : valueAt root halfwayInverse * (root ^ 2 ^ 64 - root) = 1 := by
  have hvalue := valueAt_mul root_pow halfwayInverse (halfway ^^^ xPower 1)
  rw [mul_halfwayInverse, valueAt_xPower root (by decide), pow_zero, valueAt_xor, valueAt_halfway,
    valueAt_xPower root (by decide), pow_one] at hvalue
  rw [CharTwo.sub_eq_add]
  exact hvalue.symm

theorem modulus_dvd_fix : modulus ∣ (X : (ZMod 2)[X]) ^ 2 ^ (2 * 64) - X := by
  rw [← AdjoinRoot.mk_eq_zero, map_sub, mk_X_pow, AdjoinRoot.mk_X, sub_eq_zero]
  exact root_pow_fix

theorem isCoprime_modulus_half : IsCoprime modulus (X ^ 2 ^ 64 - X) := by
  refine isCoprime_of_dvd (i := valueAt X halfwayInverse) ?_
  rw [← AdjoinRoot.mk_eq_zero, map_sub, map_mul, map_sub, mk_X_pow, mk_valueAt, AdjoinRoot.mk_X,
    map_one, sub_eq_zero]
  exact valueAt_halfwayInverse

theorem irreducible_modulus : Irreducible modulus := by
  have hsix : 64 = 2 ^ 6 := by norm_num
  exact irreducible_of_frobenius hsix natDegree_modulus modulus_dvd_fix isCoprime_modulus_half

instance : Fact (Irreducible modulus) := ⟨irreducible_modulus⟩

/-! ## Cancellation -/

theorem degree_spelled_lt (x : Block) (n : ℕ) : (spelled (X : (ZMod 2)[X]) x n).degree < n := by
  induction n with
  | zero =>
    rw [spelled, degree_zero]
    exact WithBot.bot_lt_coe _
  | succ n ih =>
    have hbit : (ofBit (x.getLsbD n) : (ZMod 2)[X]).degree ≤ 0 := by
      cases x.getLsbD n <;> simp
    rw [spelled_succ]
    refine (degree_add_le _ _).trans_lt (max_lt ?_ ?_)
    · exact hbit.trans_lt (by exact_mod_cast Nat.succ_pos n)
    · rw [mul_comm, degree_mul_X]
      push_cast
      exact WithBot.add_lt_add_right (by simp) ih

theorem bits_of_spelled_eq_zero {x : Block} {n : ℕ} (h : spelled (X : (ZMod 2)[X]) x n = 0) :
    ∀ i < n, x.getLsbD i = false := by
  induction n with
  | zero => exact fun i hi => absurd hi (Nat.not_lt_zero i)
  | succ n ih =>
    rw [spelled_succ] at h
    have hfirst : x.getLsbD n = false := by
      have hconstant := congrArg (fun f => f.coeff 0) h
      cases hbit : x.getLsbD n with
      | false => rfl
      | true =>
        rw [hbit] at hconstant
        simp at hconstant
    have hrest : spelled (X : (ZMod 2)[X]) x n = 0 := by
      simpa [hfirst] using h
    intro i hi
    rcases Nat.lt_succ_iff_lt_or_eq.1 hi with hlt | rfl
    · exact ih hrest i hlt
    · exact hfirst

/-- A block has fewer powers than the modulus, so only zero is zero modulo it. -/
theorem eq_zero_of_valueAt {x : Block} (h : valueAt root x = 0) : x = 0 := by
  rw [← mk_valueAt, AdjoinRoot.mk_eq_zero] at h
  have hdegree : (valueAt (X : (ZMod 2)[X]) x).degree < modulus.degree := by
    rw [degree_modulus]
    exact degree_spelled_lt x 128
  have hzero : valueAt (X : (ZMod 2)[X]) x = 0 := eq_zero_of_dvd_of_degree_lt h hdegree
  refine BitVec.eq_of_getLsbD_eq fun i hi => ?_
  exact (bits_of_spelled_eq_zero hzero i hi).trans BitVec.getLsbD_zero.symm

theorem valueAt_injective : Function.Injective (valueAt root) := by
  intro x y h
  have hzero : valueAt root (x ^^^ y) = 0 := by
    rw [valueAt_xor, h, CharTwo.add_self_eq_zero]
  exact BitVec.xor_eq_zero_iff.1 (eq_zero_of_valueAt hzero)

/-- A factor other than zero cancels. -/
theorem eq_of_mul_eq {h x y : Block} (hne : h ≠ 0) (heq : mul x h = mul y h) : x = y := by
  have hvalue := congrArg (valueAt root) heq
  rw [valueAt_mul root_pow, valueAt_mul root_pow] at hvalue
  exact valueAt_injective (mul_right_cancel₀ (fun hzero => hne (eq_zero_of_valueAt hzero)) hvalue)

end SealedCustody.Gcm
