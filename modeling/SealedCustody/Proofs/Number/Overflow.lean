import SealedCustody.Proofs.Number.Rounding

/-!
# What is out of range

Rounding a number to a double fails only if the number is too large: if it is nearer to the power of two
above the largest double than to that, or in the middle between them, where the power of two is the even
one (`overflow`). That is so of a whole number (`ofRatio?_natural`) and of a product of doubles that are
whole numbers (`isSome_mul?_iff`). A quotient by a double that is not below one is never out of range
unless what is divided nearly is (`exists_div?`).

That a quotient does not depend on the powers of two that its terms have in common
(`ofRatio?_mul_two_pow`) brings each of these to a quotient by the units in one.
-/

namespace SealedCustody.Binary64

variable {n num den k : Nat}

/-- The least whole number that is out of range, halfway between the largest double and the power of two
above it. -/
def overflow : Nat := Nat.pow 2 1024 - Nat.pow 2 970

theorem exists_overflow :
    ∃ k : Nat, maxExponent = k + 1 ∧ overflow + Nat.pow 2 k = Nat.pow 2 (k + 54) :=
  ⟨970, rfl, by decide +kernel⟩

theorem unitsPerOne_pos : 0 < unitsPerOne := by
  obtain ⟨p, hone, -⟩ := exists_unit
  exact hone ▸ Nat.two_pow_pos p

/-! ## Common powers of two -/

theorem log2_mul_two_pow (hn : n ≠ 0) (j : Nat) : (n * 2 ^ j).log2 = n.log2 + j := by
  have hpos : 0 < 2 ^ j := Nat.two_pow_pos j
  refine (Nat.log2_eq_iff (Nat.mul_ne_zero hn hpos.ne')).2 ⟨?_, ?_⟩
  · rw [Nat.pow_add]
    exact Nat.mul_le_mul_right _ (Nat.log2_self_le hn)
  · rw [Nat.add_right_comm, Nat.pow_add]
    exact (Nat.mul_lt_mul_right hpos).2 Nat.lt_log2_self

theorem exponentOf_mul_two_pow (hnum : num ≠ 0) (hden : den ≠ 0) (j : Nat) :
    exponentOf (num * 2 ^ j) (den * 2 ^ j) = exponentOf num den := by
  have hpos : 0 < 2 ^ j := Nat.two_pow_pos j
  have hle (a b c d : Nat) : a * 2 ^ j * b ≤ c * 2 ^ j * d ↔ a * b ≤ c * d := by
    rw [Nat.mul_right_comm a, Nat.mul_right_comm c, Nat.mul_le_mul_right_iff hpos]
  have hle' (a b c : Nat) : a * 2 ^ j * b ≤ c * 2 ^ j ↔ a * b ≤ c := by
    rw [Nat.mul_right_comm, Nat.mul_le_mul_right_iff hpos]
  unfold exponentOf
  rw [log2_mul_two_pow hnum, log2_mul_two_pow hden]
  have hexponent : ((num.log2 + j : Nat) : Int) - (den.log2 + j : Nat) - 53 =
      num.log2 - den.log2 - 53 := by omega
  simp only [hexponent, hle, hle']

/-- A quotient is rounded to the double that it is rounded to in lower terms. -/
theorem ofRatio?_mul_two_pow (negative : Bool) (num : Nat) (hden : den ≠ 0) (j : Nat) :
    ofRatio? negative (num * 2 ^ j) (den * 2 ^ j) = ofRatio? negative num den := by
  have hpos : 0 < 2 ^ j := Nat.two_pow_pos j
  by_cases hnum : num = 0
  · subst hnum
    rw [Nat.zero_mul, ofRatio?, ofRatio?, if_pos rfl, if_pos rfl]
  unfold ofRatio?
  rw [if_neg hnum, if_neg (Nat.mul_ne_zero hnum hpos.ne'), exponentOf_mul_two_pow hnum hden]
  simp only [Nat.mul_right_comm _ (2 ^ j), roundHalfEven_mul_right _ _ hpos]

theorem roundHalfEven_mul_self (k : Nat) (hden : 0 < den) : roundHalfEven (k * den) den = k :=
  Nat.le_antisymm (roundHalfEven_le hden (Nat.le_refl _)) (le_roundHalfEven hden (Nat.le_refl _))

theorem rounded_mul_two_pow (n j : Nat) : rounded (n * 2 ^ j) = rounded n * 2 ^ j := by
  by_cases hn : n = 0
  · subst hn
    rw [Nat.zero_mul, rounded_zero, Nat.zero_mul]
  have hlog := log2_mul_two_pow hn j
  unfold rounded excess
  rw [hlog]
  change roundHalfEven _ (2 ^ _) * 2 ^ _ = roundHalfEven _ (2 ^ _) * 2 ^ _ * _
  rcases Nat.le_total 52 n.log2 with hwide | hnarrow
  · rw [Nat.sub_add_comm hwide, Nat.pow_add, roundHalfEven_mul_right _ _ (Nat.two_pow_pos j),
      Nat.mul_assoc]
  · -- the number has no digits beyond the 53rd, and what it is multiplied by only adds zeros
    rw [Nat.sub_eq_zero_of_le hnarrow, Nat.pow_zero, Nat.mul_one]
    have hself : roundHalfEven n 1 = n := by
      have hone := roundHalfEven_mul_self n Nat.one_pos
      rwa [Nat.mul_one] at hone
    have hsplit : n * 2 ^ j = n * 2 ^ (j - (n.log2 + j - 52)) * 2 ^ (n.log2 + j - 52) := by
      rw [Nat.mul_assoc, ← Nat.pow_add, Nat.sub_add_cancel (by omega)]
    rw [hself, hsplit, roundHalfEven_mul_self _ (Nat.two_pow_pos _)]

/-! ## Whole numbers -/

/-- The nearest double to a whole number is that number to 53 digits, if it is in range. -/
theorem ofRatio?_natural (negative : Bool) (n : Nat) :
    (∃ x, ofRatio? negative n 1 = some x ∧ x.units.natAbs = rounded n * unitsPerOne ∧ n < overflow) ∨
      (ofRatio? negative n 1 = none ∧ overflow ≤ n) := by
  obtain ⟨p, hone, hp⟩ := exists_unit
  obtain ⟨k, hk, hoverflow⟩ := exists_overflow
  have hpos : 0 < 2 ^ p := Nat.two_pow_pos p
  have hunits : ofRatio? negative n 1 = ofRatio? negative (n * 2 ^ p) (2 ^ p) := by
    rw [← ofRatio?_mul_two_pow negative n Nat.one_ne_zero p, Nat.one_mul]
  have hrange : rounded (n * 2 ^ p) < Nat.pow 2 (p + k + 54) ↔ n < overflow := by
    have hlt : n < overflow ↔ n + Nat.pow 2 k < Nat.pow 2 (k + 54) := by
      rw [← hoverflow, Nat.add_lt_add_iff_right]
    rw [rounded_lt_iff _ rfl rfl, Nat.add_assoc p, hlt]
    change n * 2 ^ p + 2 ^ (p + k) < 2 ^ (p + (k + 54)) ↔ n + 2 ^ k < 2 ^ (k + 54)
    rw [Nat.pow_add 2 p, Nat.pow_add 2 p, Nat.mul_comm n, ← Nat.mul_add, Nat.mul_lt_mul_left hpos]
  rw [hunits, hone]
  rcases ofRatio?_two_pow negative (n * 2 ^ p) rfl hp hk with ⟨x, hx, hvalue, hlt⟩ | ⟨hnone, hle⟩
  · exact Or.inl ⟨x, hx, hvalue.trans (rounded_mul_two_pow n p), hrange.1 hlt⟩
  · exact Or.inr ⟨hnone, Nat.le_of_not_lt fun hlt => Nat.not_lt.2 hle (hrange.2 hlt)⟩

/-- The product of two doubles that are whole numbers is in range if the product of these is. -/
theorem isSome_mul?_iff {x y : Binary64} {a b : Nat} (hx : x.units.natAbs = a * unitsPerOne)
    (hy : y.units.natAbs = b * unitsPerOne) : (x.mul? y).isSome ↔ a * b < overflow := by
  obtain ⟨p, hone, -⟩ := exists_unit
  have hpow : unitsPerOne * unitsPerOne = 1 * 2 ^ (p + p) := by
    rw [hone, Nat.one_mul, Nat.pow_add]
    rfl
  have hproduct : a * unitsPerOne * (b * unitsPerOne) = a * b * 2 ^ (p + p) := by
    rw [Nat.mul_mul_mul_comm, hpow, Nat.one_mul]
  rw [mul?, hx, hy, hproduct, hpow, ofRatio?_mul_two_pow _ _ Nat.one_ne_zero]
  rcases ofRatio?_natural (x.negative != y.negative) (a * b) with ⟨z, hz, -, hlt⟩ | ⟨hnone, hle⟩
  · rw [hz]
    exact iff_of_true rfl hlt
  · rw [hnone]
    exact iff_of_false Bool.false_ne_true (Nat.not_lt.2 hle)

/-! ## Quotients -/

theorem exponentOf_le (h : num.log2 ≤ den.log2 + k) :
    exponentOf num den ≤ max ((k : Int) - 52) minExponent := by
  unfold exponentOf
  dsimp only
  refine max_le_max_right minExponent ?_
  split <;> omega

/-- The mantissa of a quotient up to a power of two, at its exponent, comes to no more than that power. -/
theorem mantissa_mul_le {e : Int} {p : Nat} (hden : den ≠ 0) (h : num ≤ den * 2 ^ k) (hlow : -(p : Int) ≤ e)
    (hhigh : e ≤ k) :
    (if e < 0 then roundHalfEven (num * Nat.pow 2 e.natAbs) den
      else roundHalfEven num (den * Nat.pow 2 e.toNat)) * 2 ^ (e + p).toNat ≤ 2 ^ k * 2 ^ p := by
  have hpos : 0 < den := Nat.pos_of_ne_zero hden
  split
  · have hmantissa : roundHalfEven (num * Nat.pow 2 e.natAbs) den ≤ 2 ^ k * 2 ^ e.natAbs := by
      refine roundHalfEven_le hpos ?_
      rw [Nat.mul_comm _ den, ← Nat.mul_assoc]
      exact Nat.mul_le_mul_right _ h
    refine (Nat.mul_le_mul_right _ hmantissa).trans_eq ?_
    rw [Nat.mul_assoc, ← Nat.pow_add]
    congr 2
    omega
  · have hmantissa : roundHalfEven num (den * Nat.pow 2 e.toNat) ≤ 2 ^ (k - e.toNat) := by
      refine roundHalfEven_le (Nat.mul_pos hpos (Nat.two_pow_pos _)) (h.trans_eq ?_)
      change den * 2 ^ k = 2 ^ (k - e.toNat) * (den * 2 ^ e.toNat)
      rw [Nat.mul_left_comm, ← Nat.pow_add, Nat.sub_add_cancel (by omega)]
    refine (Nat.mul_le_mul_right _ hmantissa).trans_eq ?_
    rw [← Nat.pow_add, ← Nat.pow_add]
    congr 1
    omega

/-- A quotient up to a power of two well below the largest doubles is in range, and is not rounded above
that power. -/
theorem ofRatio?_le (negative : Bool) (hden : den ≠ 0) (h : num ≤ den * 2 ^ k) (hk : k ≤ 1000) :
    ∃ x, ofRatio? negative num den = some x ∧ x.units.natAbs ≤ 2 ^ k * unitsPerOne := by
  obtain ⟨p, hone, hp⟩ := exists_unit
  rw [hone]
  by_cases hnum : num = 0
  · refine ⟨zero negative, if_pos hnum, ?_⟩
    rw [natAbs_units]
    exact (Nat.zero_mul _).trans_le (Nat.zero_le _)
  have hlog : num.log2 ≤ den.log2 + k := by
    refine Nat.le_of_lt_succ ((Nat.log2_lt hnum).2 (h.trans_lt ?_))
    rw [Nat.succ_eq_add_one, Nat.add_right_comm, Nat.pow_add]
    exact (Nat.mul_lt_mul_right (Nat.two_pow_pos k)).2 Nat.lt_log2_self
  have hhigh := exponentOf_le hlog
  have hlow : minExponent ≤ exponentOf num den := Int.le_max_right _ _
  rw [hp] at hhigh hlow
  have hmantissa := mantissa_mul_le hden h hlow (by omega)
  unfold ofRatio?
  rw [if_neg hnum]
  dsimp only
  generalize exponentOf num den = e at *
  generalize (if e < 0 then roundHalfEven (num * Nat.pow 2 e.natAbs) den
    else roundHalfEven num (den * Nat.pow 2 e.toNat)) = m at *
  by_cases hcarry : m = Nat.pow 2 53
  · rw [if_pos hcarry, if_neg (by unfold maxExponent; dsimp only; omega)]
    refine ⟨_, rfl, ?_⟩
    have hshift : (e + 1 - -(p : Int)).toNat = (e + p).toNat + 1 := by omega
    have hsame : Nat.pow 2 52 * Nat.pow 2 ((e + p).toNat + 1) = m * 2 ^ (e + p).toNat := by
      have hsum : 52 + ((e + p).toNat + 1) = 53 + (e + p).toNat := by omega
      rw [hcarry]
      change 2 ^ 52 * 2 ^ _ = 2 ^ 53 * 2 ^ _
      rw [← Nat.pow_add, ← Nat.pow_add, hsum]
    rw [natAbs_units, hp, hshift, hsame]
    exact hmantissa
  · rw [if_neg hcarry, if_neg (by unfold maxExponent; dsimp only; omega)]
    refine ⟨_, rfl, ?_⟩
    rw [natAbs_units, hp, Int.sub_neg]
    exact hmantissa

/-- A double divided by one that is not below one is in range, and no larger a power of two is needed to
bound the quotient. -/
theorem exists_div? {x y : Binary64} (hx : x.units.natAbs ≤ 2 ^ k * unitsPerOne)
    (hy : unitsPerOne ≤ y.units.natAbs) (hk : k ≤ 1000) :
    ∃ z, x.div? y = some z ∧ z.units.natAbs ≤ 2 ^ k * unitsPerOne := by
  refine ofRatio?_le _ (unitsPerOne_pos.trans_le hy).ne' (hx.trans ?_) hk
  rw [Nat.mul_comm]
  exact Nat.mul_le_mul_right _ hy

end SealedCustody.Binary64
