import SealedCustody.Number.Binary64
import Mathlib.Algebra.Order.Ring.Nat
import Mathlib.Tactic.Ring

/-!
# Rounded differences

The difference of two doubles is a whole number of units, and rounding it to a double keeps its first 53
binary digits (`rounded`). Doubles are close when what is left is below the gap after one. Rounding may
reach that gap from below: a difference just under it goes up to it, once it has come as near as half of
the gap between the doubles there. So two doubles are close exactly when their difference itself falls
short of the gap after one by more than that half (`close_iff`).

## Shape of the proof

Where a quotient is rounded to is read off the middles between whole numbers (`roundHalfEven_le_iff`). A
whole number of units divided by the units in one is a quotient of the number by a power of two, and the
power of two taken out of it is that of the digits beyond the 53rd (`exponentOf_two_pow`). What it is
rounded to is then below a power of two in one of three ways, as the digits kept end below, at or above
the last place before it (`rounded_lt_iff`).
-/

namespace SealedCustody.Binary64

variable {n num den k : Nat}

/-! ## To the nearest whole number -/

/-- Rounding stays up to a whole number just until the middle between it and the next, and in the middle
if it is even. -/
theorem roundHalfEven_le_iff (hden : 0 < den) : roundHalfEven num den ≤ k ↔
    2 * num < (2 * k + 1) * den ∨ (2 * num = (2 * k + 1) * den ∧ k % 2 = 0) := by
  have hmod : num % den < den := Nat.mod_lt num hden
  have hnum : num = num / den * den + num % den := (Nat.div_add_mod' num den).symm
  have hmiddle : (2 * k + 1) * den = 2 * (k * den) + den := by ring
  unfold roundHalfEven
  dsimp only
  generalize num / den = q at *
  generalize num % den = r at *
  subst hnum
  rcases Nat.lt_trichotomy q k with hlt | rfl | hgt
  · have hbelow : q * den + den ≤ k * den := by
      rw [← Nat.succ_mul]
      exact Nat.mul_le_mul_right den hlt
    refine iff_of_true ?_ (Or.inl (by omega))
    split_ifs <;> omega
  · split_ifs <;> omega
  · have habove : k * den + den ≤ q * den := by
      rw [← Nat.succ_mul]
      exact Nat.mul_le_mul_right den hgt
    refine iff_of_false ?_ (by omega)
    split_ifs <;> omega

theorem roundHalfEven_le (hden : 0 < den) (h : num ≤ k * den) : roundHalfEven num den ≤ k := by
  have hmiddle : (2 * k + 1) * den = 2 * (k * den) + den := by ring
  exact (roundHalfEven_le_iff hden).2 (Or.inl (by omega))

theorem le_roundHalfEven (hden : 0 < den) (h : k * den ≤ num) : k ≤ roundHalfEven num den := by
  refine Nat.le_of_not_lt fun hlt => ?_
  have hle : (roundHalfEven num den + 1) * den ≤ k * den := Nat.mul_le_mul_right den hlt
  have hmiddle : (2 * roundHalfEven num den + 1) * den + den =
      2 * ((roundHalfEven num den + 1) * den) := by ring
  have hself := (roundHalfEven_le_iff hden).1 (Nat.le_refl (roundHalfEven num den))
  omega

/-- A quotient is rounded as it is in lower terms. -/
theorem roundHalfEven_mul_right (num den : Nat) {c : Nat} (hc : 0 < c) :
    roundHalfEven (num * c) (den * c) = roundHalfEven num den := by
  have hlt (a b : Nat) : 2 * (a * c) < b * c ↔ 2 * a < b := by
    rw [← Nat.mul_assoc, Nat.mul_lt_mul_right hc]
  have hgt (a b : Nat) : b * c < 2 * (a * c) ↔ b < 2 * a := by
    rw [← Nat.mul_assoc, Nat.mul_lt_mul_right hc]
  unfold roundHalfEven
  rw [Nat.mul_div_mul_right num den hc, Nat.mul_mod_mul_right c num den]
  simp only [hlt, hgt]

/-! ## To 53 digits -/

/-- How many binary digits of a whole number come after the first 53. -/
def excess (n : Nat) : Nat := n.log2 - 52

/-- A whole number to 53 binary digits. -/
def rounded (n : Nat) : Nat := roundHalfEven n (Nat.pow 2 (excess n)) * Nat.pow 2 (excess n)

theorem rounded_zero : rounded 0 = 0 := by decide

theorem lt_two_pow_excess (n : Nat) : n < 2 ^ (excess n + 53) := by
  refine Nat.lt_of_lt_of_le Nat.lt_log2_self (Nat.pow_le_pow_right (by decide) ?_)
  unfold excess
  omega

theorem two_pow_excess_le (h : 0 < excess n) : 2 ^ (excess n + 52) ≤ n := by
  have hn : n ≠ 0 := by
    rintro rfl
    exact absurd h (by decide)
  have hlog : excess n + 52 = n.log2 := by
    unfold excess at h ⊢
    omega
  rw [hlog]
  exact Nat.log2_self_le hn

/-- Rounding to 53 digits stays below a power of two just until the middle between it and the number of
53 digits before it. -/
theorem rounded_lt_iff (n : Nat) {margin bound : Nat} (hmargin : margin = Nat.pow 2 k)
    (hbound : bound = Nat.pow 2 (k + 54)) : rounded n < bound ↔ n + margin < bound := by
  rw [hmargin, hbound]
  have hupper : n < 2 ^ (excess n + 53) := lt_two_pow_excess n
  have hlower : 0 < excess n → 2 ^ (excess n + 52) ≤ n := two_pow_excess_le
  unfold rounded
  generalize excess n = s at *
  change roundHalfEven n (2 ^ s) * 2 ^ s < 2 ^ (k + 54) ↔ n + 2 ^ k < 2 ^ (k + 54)
  have hpos : 0 < 2 ^ s := Nat.two_pow_pos s
  have hscale (i m : Nat) : 2 ^ (i + m) = 2 ^ m * 2 ^ i := by rw [Nat.pow_add, Nat.mul_comm]
  rcases Nat.lt_trichotomy s (k + 1) with hlt | rfl | hgt
  · -- the digits are few, and neither the number nor what it is rounded to comes near
    have hrounded : roundHalfEven n (2 ^ s) * 2 ^ s ≤ 2 ^ 53 * 2 ^ s :=
      Nat.mul_le_mul_right _ (roundHalfEven_le hpos (hscale s 53 ▸ Nat.le_of_lt hupper))
    have hsk : 2 ^ s ≤ 2 ^ k := Nat.pow_le_pow_right (by decide) (Nat.le_of_lt_succ hlt)
    rw [hscale] at hupper ⊢
    omega
  · -- the digits kept end in the last place before the power of two, where the largest is odd
    have hcut : roundHalfEven n (2 ^ (k + 1)) * 2 ^ (k + 1) < 2 ^ (k + 54) ↔
        roundHalfEven n (2 ^ (k + 1)) ≤ 2 ^ 53 - 1 := by
      rw [show k + 54 = k + 1 + 53 by rfl, hscale (k + 1) 53, Nat.mul_lt_mul_right hpos]
      omega
    rw [hcut, roundHalfEven_le_iff hpos, hscale k 54, hscale k 1]
    omega
  · -- the number is not below the power of two, and is not rounded below it
    have hle : 2 ^ (k + 54) ≤ 2 ^ 52 * 2 ^ s :=
      hscale s 52 ▸ Nat.pow_le_pow_right (by decide) (by omega)
    have hn : 2 ^ 52 * 2 ^ s ≤ n := hscale s 52 ▸ hlower (by omega)
    have hrounded : 2 ^ 52 * 2 ^ s ≤ roundHalfEven n (2 ^ s) * 2 ^ s :=
      Nat.mul_le_mul_right _ (le_roundHalfEven hpos hn)
    exact iff_of_false (Nat.not_lt.2 (hle.trans hrounded))
      (Nat.not_lt.2 ((hle.trans hn).trans (Nat.le_add_right n _)))

/-! ## The nearest double to a number of units -/

theorem natAbs_units (x : Binary64) :
    x.units.natAbs = x.mantissa * Nat.pow 2 (x.exponent - minExponent).toNat := by
  unfold units
  dsimp only
  split
  · rw [Int.natAbs_neg, Int.natAbs_natCast]
  · rw [Int.natAbs_natCast]

/-- Over a power of two the exponent is read off the digits. -/
theorem exponentOf_two_pow (hn : n ≠ 0) (p : Nat) :
    exponentOf n (Nat.pow 2 p) = max ((n.log2 : Int) - p - 52) minExponent := by
  have hle : 2 ^ n.log2 ≤ n := Nat.log2_self_le hn
  have hlog : (Nat.pow 2 p).log2 = p := Nat.log2_two_pow
  unfold exponentOf
  rw [hlog]
  dsimp only
  generalize he : (n.log2 : Int) - p - 53 = e
  -- the quotient has one digit more than the first guess allows for
  have hwide : if e < 0 then Nat.pow 2 p * Nat.pow 2 53 ≤ n * Nat.pow 2 e.natAbs
      else Nat.pow 2 p * Nat.pow 2 (53 + e.toNat) ≤ n := by
    split
    · calc 2 ^ p * 2 ^ 53 = 2 ^ (n.log2 + e.natAbs) := by
            rw [← Nat.pow_add]
            congr 1
            omega
        _ = 2 ^ n.log2 * 2 ^ e.natAbs := Nat.pow_add 2 n.log2 e.natAbs
        _ ≤ n * 2 ^ e.natAbs := Nat.mul_le_mul_right _ hle
    · calc 2 ^ p * 2 ^ (53 + e.toNat) = 2 ^ n.log2 := by
            rw [← Nat.pow_add]
            congr 1
            omega
        _ ≤ n := hle
  rw [if_pos hwide]
  omega

/-- The mantissa over a power of two is the number without the digits after the first 53. -/
theorem mantissa_eq (n p : Nat) {e : Int} (he : e = excess n - p) :
    (if e < 0 then roundHalfEven (n * Nat.pow 2 e.natAbs) (Nat.pow 2 p)
      else roundHalfEven n (Nat.pow 2 p * Nat.pow 2 e.toNat)) =
        roundHalfEven n (Nat.pow 2 (excess n)) := by
  split
  · have hsum : p = excess n + e.natAbs := by omega
    calc roundHalfEven (n * 2 ^ e.natAbs) (2 ^ p)
        = roundHalfEven (n * 2 ^ e.natAbs) (2 ^ excess n * 2 ^ e.natAbs) := by
          rw [← Nat.pow_add, ← hsum]
      _ = roundHalfEven n (2 ^ excess n) := roundHalfEven_mul_right _ _ (Nat.two_pow_pos _)
  · have hsum : p + e.toNat = excess n := by omega
    have hden : 2 ^ p * 2 ^ e.toNat = 2 ^ excess n := by rw [← Nat.pow_add, hsum]
    exact congrArg (roundHalfEven n) hden

/-- To 53 digits a number comes no further than to the power of two above its digits. -/
theorem mantissa_le (n : Nat) : roundHalfEven n (Nat.pow 2 (excess n)) ≤ 2 ^ 53 := by
  refine roundHalfEven_le (Nat.two_pow_pos _) (Nat.le_of_lt ?_)
  show n < 2 ^ 53 * 2 ^ excess n
  rw [← Nat.pow_add, Nat.add_comm]
  exact lt_two_pow_excess n

/-- A number with more than 53 digits keeps 53 of them. -/
theorem le_mantissa (h : 0 < excess n) : 2 ^ 52 ≤ roundHalfEven n (Nat.pow 2 (excess n)) := by
  refine le_roundHalfEven (Nat.two_pow_pos _) ?_
  show 2 ^ 52 * 2 ^ excess n ≤ n
  rw [← Nat.pow_add, Nat.add_comm]
  exact two_pow_excess_le h

/-- The nearest double to a number of units is that number to 53 digits; there is none just when that
comes to the power of two above the largest doubles. -/
theorem ofRatio?_two_pow (negative : Bool) (n : Nat) {p : Nat} (hden : den = Nat.pow 2 p)
    (hp : minExponent = -p) (hk : maxExponent = k + 1) :
    (∃ x, ofRatio? negative n den = some x ∧ x.units.natAbs = rounded n ∧
        rounded n < Nat.pow 2 (p + k + 54)) ∨
      (ofRatio? negative n den = none ∧ Nat.pow 2 (p + k + 54) ≤ rounded n) := by
  subst hden
  by_cases hn : n = 0
  · subst hn
    refine Or.inl ⟨zero negative, if_pos rfl, ?_, ?_⟩
    · rw [natAbs_units, rounded_zero]
      exact Nat.zero_mul _
    · rw [rounded_zero]
      exact Nat.two_pow_pos _
  have he : max ((n.log2 : Int) - p - 52) minExponent = excess n - p := by
    rw [hp]
    unfold excess
    omega
  have hunits (m : Nat) {e : Int} {j : Nat} (he : e = excess n + j - p) :
      (⟨negative, m, e⟩ : Binary64).units.natAbs = m * Nat.pow 2 (excess n + j) := by
    have hshift : (e - minExponent).toNat = excess n + j := by omega
    rw [natAbs_units, ← hshift]
  have hupper := mantissa_le n
  have hlower : 0 < excess n → 2 ^ 52 ≤ roundHalfEven n (Nat.pow 2 (excess n)) := le_mantissa
  unfold ofRatio?
  rw [if_neg hn, exponentOf_two_pow hn, he]
  dsimp only
  rw [mantissa_eq n p rfl]
  unfold rounded
  generalize roundHalfEven n (Nat.pow 2 (excess n)) = m at *
  generalize excess n = s at *
  change (∃ x : Binary64, _ ∧ x.units.natAbs = m * 2 ^ s ∧ m * 2 ^ s < 2 ^ (p + k + 54)) ∨
    _ ∧ 2 ^ (p + k + 54) ≤ m * 2 ^ s
  have hbound (i j : Nat) : 2 ^ i * 2 ^ j = 2 ^ (i + j) := (Nat.pow_add 2 i j).symm
  have hmono {i j : Nat} (h : i ≤ j) : 2 ^ i ≤ 2 ^ j := Nat.pow_le_pow_right (by decide) h
  -- a mantissa of 54 digits is carried over into the exponent
  by_cases hcarry : m = Nat.pow 2 53
  · rw [if_pos hcarry, show m = 2 ^ 53 from hcarry, hbound]
    dsimp only
    rw [hk]
    split
    · exact Or.inr ⟨rfl, hmono (by omega)⟩
    · refine Or.inl ⟨_, rfl, ?_, Nat.lt_of_le_of_lt (hmono (j := p + k + 53) (by omega)) ?_⟩
      · rw [hunits _ (j := 1) (by omega)]
        show 2 ^ 52 * 2 ^ (s + 1) = _
        rw [hbound]
        congr 1
        omega
      · exact Nat.pow_lt_pow_right (by decide) (by omega)
  · rw [if_neg hcarry]
    dsimp only
    rw [hk]
    split
    · have hle := Nat.mul_le_mul_right (2 ^ s) (hlower (by omega))
      rw [hbound] at hle
      exact Or.inr ⟨rfl, (hmono (by omega)).trans hle⟩
    · refine Or.inl ⟨_, rfl, hunits _ (j := 0) (by omega), ?_⟩
      have hlt : m < 2 ^ 53 := Nat.lt_of_le_of_ne hupper hcarry
      have hscaled := (Nat.mul_lt_mul_right (Nat.two_pow_pos s)).2 hlt
      rw [hbound] at hscaled
      exact hscaled.trans_le (hmono (by omega))

/-! ## Close doubles -/

/-- Half of the gap between the doubles just below the gap after one, in units. -/
def marginUnits : Nat := Nat.pow 2 968

/-- The gap after one and the margin are 54 powers of two apart. -/
theorem exists_margin : ∃ k, marginUnits = Nat.pow 2 k ∧ epsilonUnits = Nat.pow 2 (k + 54) :=
  ⟨968, by decide +kernel, by decide +kernel⟩

/-- A unit is the smallest power of two. -/
theorem exists_unit : ∃ p : Nat, unitsPerOne = Nat.pow 2 p ∧ minExponent = -p :=
  ⟨1074, by decide +kernel, rfl⟩

/-- The largest power of two of any double is positive. -/
theorem exists_largest : ∃ k : Nat, maxExponent = k + 1 := ⟨970, rfl⟩

/-- Two doubles are close just when their difference falls short of the gap after one by more than the
margin in which it would be rounded up to it. -/
theorem close_iff (x y : Binary64) :
    x.close y = true ↔ (x.units - y.units).natAbs + marginUnits < epsilonUnits := by
  obtain ⟨k, hmargin, hepsilon⟩ := exists_margin
  obtain ⟨p, hone, hp⟩ := exists_unit
  obtain ⟨largest, hlargest⟩ := exists_largest
  unfold close sub?
  dsimp only
  rcases ofRatio?_two_pow (x.units - y.units < 0) (x.units - y.units).natAbs hone hp hlargest with
    ⟨d, hd, hunits, -⟩ | ⟨hnone, hlarge⟩
  · rw [hd]
    dsimp only
    rw [decide_eq_true_iff, hunits]
    exact rounded_lt_iff _ hmargin hepsilon
  · rw [hnone]
    refine iff_of_false Bool.false_ne_true fun hlt => Nat.not_lt.2 hlarge ?_
    have hbelow : rounded (x.units - y.units).natAbs < epsilonUnits :=
      (rounded_lt_iff _ hmargin hepsilon).2 hlt
    have hle : epsilonUnits ≤ unitsPerOne := by decide +kernel
    rw [hone] at hle
    have hpow : Nat.pow 2 p ≤ Nat.pow 2 (p + largest + 54) :=
      Nat.pow_le_pow_right (by decide) (by omega)
    exact Nat.lt_of_lt_of_le hbelow (Nat.le_trans hle hpow)

/-- The gap after one, less the smallest double, is rounded to the gap. -/
example : (⟨false, 0x10000000000000, -104⟩ : Binary64).close ⟨false, 1, minExponent⟩ = false := by
  decide +kernel

end SealedCustody.Binary64
