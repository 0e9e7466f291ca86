import SealedCustody.Json.Number
import SealedCustody.Proofs.Number.Overflow

/-!
# Which numerals are in range

A numeral is read as a word times a power of ten (`NumeralText.Scientific`), however many digits it has:
the word takes its leading digits as long as they fit, and the digits that no longer fit count for the
power alone. It is in range if the nearest doubles to the word and to the power of ten have a product
that is (`NumeralText.InRange`). That is a condition on the digits; the reader has a number for a numeral
exactly if it holds (`NumeralText.isSome_number?_iff`).

A negative power is applied by divisions, which make nothing too large, and asks for nothing.
-/

namespace SealedCustody

namespace Binary64

variable {n : Nat}

theorem rounded_one : rounded 1 = 1 := by decide

theorem rounded_pos (hn : 0 < n) : 0 < rounded n := by
  have hpos : 0 < 2 ^ excess n := Nat.two_pow_pos _
  have hle : 1 * 2 ^ excess n ≤ n := by
    rw [Nat.one_mul]
    exact (Nat.pow_le_pow_right (by decide) (Nat.sub_le _ _)).trans (Nat.log2_self_le hn.ne')
  exact Nat.mul_pos (le_roundHalfEven hpos hle) hpos

/-- What is out of range is rounded to what is out of range. -/
theorem overflow_le_rounded (h : overflow ≤ n) : overflow ≤ rounded n := by
  obtain ⟨k, -, hoverflow⟩ := exists_overflow
  have hlarge : Nat.pow 2 (k + 54) ≤ rounded n := by
    refine Nat.le_of_not_lt fun hlt => ?_
    have hbelow := (rounded_lt_iff n rfl rfl).1 hlt
    omega
  omega

theorem rounded_lt_two_pow (h : n < UInt64.size) : rounded n < 2 ^ 65 := by
  refine (rounded_lt_iff (k := 11) n rfl rfl).2 ?_
  have hsize : UInt64.size + 2 ^ 11 ≤ 2 ^ 65 := by decide
  exact (Nat.add_lt_add_right h (2 ^ 11)).trans_le hsize

theorem rounded_lt_overflow (h : n < UInt64.size) : rounded n < overflow :=
  (rounded_lt_two_pow h).trans_le (by decide +kernel)

end Binary64

namespace Json

open Binary64

/-! ## Digits -/

/-- A word is filled with digits: as many of them as fit, behind those of `n`. -/
structure Fills (n : Nat) (taken left : List Char) (word : Nat) : Prop where
  value : word = Nat.ofDigitChars 10 taken n
  fits : word < UInt64.size
  /-- With the next digit the word would be too large. -/
  full : ∀ c ∈ left.head?, UInt64.size ≤ Nat.ofDigitChars 10 [c] word

/-- The power of ten that an exponent stands for. -/
def powerOf : Option (Bool × List Char) → Int
  | none => 0
  | some (false, ds) => Nat.ofDigitChars 10 ds 0
  | some (true, ds) => -Nat.ofDigitChars 10 ds 0

namespace NumeralText

/-- A numeral is read as a word times a power of ten. The word is filled with the digits in front of the
point and then with those after it. Each digit in front of the point that does not fit is a power of ten
more, each digit after it that does is one less. -/
inductive Scientific : NumeralText → Nat → Int → Prop
  | mk {negative : Bool} {taken excess counted dropped : List Char} {fraction : Option (List Char)}
      {exponent : Option (Bool × List Char)} {n word : Nat} (hwhole : Fills 0 taken excess n)
      (hfraction : fraction.getD [] = counted ++ dropped) (hcounted : Fills n counted dropped word) :
      Scientific ⟨negative, taken ++ excess, fraction, exponent⟩ word
        (excess.length - counted.length + powerOf exponent)

/-- The numeral is in range: the doubles nearest to its word and to its power of ten have a product that
has a nearest double. -/
def InRange (t : NumeralText) : Prop :=
  ∃ word power, t.Scientific word power ∧ rounded word * rounded (10 ^ power.toNat) < overflow

end NumeralText

/-! ## Words -/

theorem le_ofDigitChars (n : Nat) (ds : List Char) : n ≤ Nat.ofDigitChars 10 ds n := by
  rw [Nat.ofDigitChars_eq_ofDigitChars_zero]
  exact (Nat.le_mul_of_pos_left n (Nat.pow_pos (by decide))).trans (Nat.le_add_right _ _)

theorem ofDigitChars_singleton (n : Nat) (c : Char) :
    Nat.ofDigitChars 10 [c] n = n * 10 + (c.toNat - '0'.toNat) := by
  rw [Nat.ofDigitChars_cons, Nat.mul_comm]
  rfl

theorem ofDigitChars_cons' (n : Nat) (c : Char) (ds : List Char) :
    Nat.ofDigitChars 10 (c :: ds) n = Nat.ofDigitChars 10 ds (n * 10 + (c.toNat - '0'.toNat)) := by
  rw [Nat.ofDigitChars_cons, Nat.mul_comm]

/-- A word is read as it is filled. -/
theorem Fills.takeWord {n word : Nat} {taken left : List Char} (h : Fills n taken left word) :
    takeWord n (taken ++ left) = (word, left) := by
  induction taken generalizing n with
  | nil =>
    obtain rfl : word = n := h.value
    cases left with
    | nil => rfl
    | cons c left =>
      have hfull := h.full c rfl
      rw [ofDigitChars_singleton] at hfull
      rw [List.nil_append, Json.takeWord, if_neg (Nat.not_lt.2 hfull)]
  | cons c taken ih =>
    have hvalue := h.value
    rw [ofDigitChars_cons'] at hvalue
    have hle := le_ofDigitChars (n * 10 + (c.toNat - '0'.toNat)) taken
    rw [← hvalue] at hle
    rw [List.cons_append, Json.takeWord, if_pos (hle.trans_lt h.fits)]
    exact ih ⟨hvalue, h.fits, h.full⟩

theorem exists_fills {n : Nat} (hn : n < UInt64.size) (ds : List Char) :
    ∃ taken left word, ds = taken ++ left ∧ Fills n taken left word := by
  induction ds generalizing n with
  | nil => exact ⟨[], [], n, rfl, rfl, hn, nofun⟩
  | cons c ds ih =>
    by_cases hnext : n * 10 + (c.toNat - '0'.toNat) < UInt64.size
    · obtain ⟨taken, left, word, rfl, hvalue, hfits, hfull⟩ := ih hnext
      exact ⟨c :: taken, left, word, rfl, by rw [hvalue, ofDigitChars_cons'], hfits, hfull⟩
    · refine ⟨[], c :: ds, n, rfl, rfl, hn, fun d hd => ?_⟩
      obtain rfl := Option.some.inj hd
      rw [ofDigitChars_singleton]
      exact Nat.le_of_not_lt hnext

theorem digitsValue_eq (ds : List Char) : digitsValue ds = Nat.ofDigitChars 10 ds 0 := by
  unfold digitsValue
  generalize 0 = n
  induction ds generalizing n with
  | nil => rfl
  | cons c ds ih => rw [List.foldl_cons, ih, ofDigitChars_cons']

theorem exponentValue_eq (exponent : Option (Bool × List Char)) :
    NumeralText.exponentValue exponent = powerOf exponent := by
  match exponent with
  | none => rfl
  | some (false, ds) => exact congrArg Nat.cast (digitsValue_eq ds)
  | some (true, ds) => exact congrArg (fun n : Nat => -(n : Int)) (digitsValue_eq ds)

/-! ## Powers of ten -/

/-- The powers of ten that are in range. -/
theorem exists_ten_pow : ∃ k : Nat, k = 308 ∧ Nat.pow 10 k < overflow ∧ overflow ≤ Nat.pow 10 (k + 1) :=
  ⟨308, rfl, by decide +kernel, by decide +kernel⟩

theorem natAbs_units_ofInt {word : Nat} (hword : word < UInt64.size) :
    (Binary64.ofInt word).units.natAbs = rounded word * unitsPerOne := by
  have hpositive : decide ((word : Int) < 0) = false := decide_eq_false (by omega)
  have hrange : UInt64.size ≤ overflow := by decide +kernel
  unfold Binary64.ofInt
  rw [hpositive, Int.natAbs_natCast]
  rcases ofRatio?_natural false word with ⟨x, hx, hunits, -⟩ | ⟨-, hle⟩
  · rw [hx]
    exact hunits
  · exact absurd (hword.trans_le hrange) (Nat.not_lt.2 hle)

theorem natAbs_units_powerOfTen {k : Nat} (hk : k ≤ 308) :
    (powerOfTen k).units.natAbs = rounded (10 ^ k) * unitsPerOne := by
  obtain ⟨most, hmost, hrange, -⟩ := exists_ten_pow
  have hle : Nat.pow 10 k ≤ Nat.pow 10 most := Nat.pow_le_pow_right (by decide) (hmost ▸ hk)
  unfold powerOfTen
  rcases ofRatio?_natural false (Nat.pow 10 k) with ⟨x, hx, hunits, -⟩ | ⟨-, hlarge⟩
  · rw [hx]
    exact hunits
  · exact absurd (hle.trans_lt hrange) (Nat.not_lt.2 hlarge)

theorem le_units_powerOfTen {k : Nat} (hk : k ≤ 308) : unitsPerOne ≤ (powerOfTen k).units.natAbs := by
  rw [natAbs_units_powerOfTen hk]
  exact Nat.le_mul_of_pos_left unitsPerOne (rounded_pos (Nat.pow_pos (by decide)))

theorem mantissa_eq_zero_iff {x : Binary64} : x.mantissa = 0 ↔ x.units.natAbs = 0 := by
  rw [natAbs_units, Nat.mul_eq_zero, or_iff_left]
  exact (Nat.two_pow_pos _).ne'

/-- Divisions by powers of ten make nothing too large. -/
theorem isSome_scaleDown (k : Nat) : ∀ {x : Binary64}, x.units.natAbs ≤ 2 ^ 65 * unitsPerOne →
    (scaleDown x k).isSome := by
  induction k using Nat.strongRecOn with
  | ind k ih =>
    intro x hx
    rw [scaleDown]
    split
    · rename_i hk
      obtain ⟨z, hz, -⟩ := exists_div? hx (le_units_powerOfTen hk) (by decide)
      exact Option.isSome_of_eq_some hz
    · split
      · rfl
      · obtain ⟨z, hz, hunits⟩ := exists_div? hx (le_units_powerOfTen (Nat.le_refl 308)) (by decide)
        rw [hz]
        exact ih (k - 308) (by omega) hunits

theorem isSome_scaleUp?_iff {word : Nat} (hword : word < UInt64.size) (k : Nat) :
    (scaleUp? (Binary64.ofInt word) k).isSome ↔ rounded word * rounded (10 ^ k) < overflow := by
  have hunits := natAbs_units_ofInt hword
  unfold scaleUp?
  split
  · rename_i hk
    exact isSome_mul?_iff hunits (natAbs_units_powerOfTen hk)
  rename_i hk
  split
  · rename_i hzero
    rw [mantissa_eq_zero_iff, hunits, Nat.mul_eq_zero, or_iff_left unitsPerOne_pos.ne'] at hzero
    rw [hzero, Nat.zero_mul]
    exact iff_of_true rfl (by decide +kernel)
  · -- no word but zero makes up for a power of ten that is out of range itself
    rename_i hzero
    obtain ⟨most, hmost, -, hrange⟩ := exists_ten_pow
    have hle : Nat.pow 10 (most + 1) ≤ Nat.pow 10 k := Nat.pow_le_pow_right (by decide) (by omega)
    have hpower := overflow_le_rounded (hrange.trans hle)
    have hpos : 0 < rounded word := by
      refine Nat.pos_of_ne_zero fun h => hzero (mantissa_eq_zero_iff.2 ?_)
      rw [hunits, h, Nat.zero_mul]
    exact iff_of_false nofun (Nat.not_lt.2 (hpower.trans (Nat.le_mul_of_pos_left _ hpos)))

theorem isSome_scaled?_iff (negative : Bool) {word : Nat} (hword : word < UInt64.size) (power : Int) :
    (scaled? negative word power).isSome ↔ rounded word * rounded (10 ^ power.toNat) < overflow := by
  unfold scaled?
  dsimp only
  rw [Option.isSome_map]
  split
  · exact isSome_scaleUp?_iff hword power.toNat
  · rename_i hpower
    have hunits : (Binary64.ofInt word).units.natAbs ≤ 2 ^ 65 * unitsPerOne := by
      rw [natAbs_units_ofInt hword]
      exact Nat.mul_le_mul_right _ (rounded_lt_two_pow hword).le
    have htoNat : power.toNat = 0 := by omega
    rw [htoNat, Nat.pow_zero, rounded_one, Nat.mul_one]
    exact iff_of_true (isSome_scaleDown _ hunits) (rounded_lt_overflow hword)

/-! ## Numerals -/

namespace NumeralText

theorem exists_scientific (t : NumeralText) : ∃ word power, t.Scientific word power := by
  obtain ⟨negative, whole, fraction, exponent⟩ := t
  obtain ⟨taken, excess, n, rfl, hwhole⟩ := exists_fills (by decide : 0 < UInt64.size) whole
  obtain ⟨counted, dropped, word, hfraction, hcounted⟩ := exists_fills hwhole.fits (fraction.getD [])
  exact ⟨_, _, .mk hwhole hfraction hcounted⟩

theorem Scientific.isSome_number?_iff {t : NumeralText} {word : Nat} {power : Int}
    (h : t.Scientific word power) :
    t.number?.isSome ↔ rounded word * rounded (10 ^ power.toNat) < overflow := by
  cases h with
  | @mk negative taken excess counted dropped fraction exponent n word hwhole hfraction hcounted =>
    unfold number?
    rw [hwhole.takeWord]
    dsimp only
    split
    · -- digits that all fit are an integer
      obtain ⟨rfl, rfl⟩ := List.append_eq_nil_iff.1 hfraction.symm
      obtain rfl : word = n := hcounted.value
      refine iff_of_true rfl ?_
      rw [powerOf, Int.sub_self, Int.add_zero, Int.toNat_zero, Nat.pow_zero, rounded_one, Nat.mul_one]
      exact rounded_lt_overflow hwhole.fits
    · rw [Option.isSome_map, hfraction, hcounted.takeWord, exponentValue_eq, List.length_append]
      dsimp only
      rw [Int.natCast_add, Int.add_sub_cancel]
      exact isSome_scaled?_iff negative hcounted.fits _

/-- The reader has a number for a numeral exactly if the numeral is in range. -/
theorem isSome_number?_iff (t : NumeralText) : t.number?.isSome ↔ t.InRange := by
  constructor
  · intro h
    obtain ⟨word, power, hscientific⟩ := t.exists_scientific
    exact ⟨word, power, hscientific, hscientific.isSome_number?_iff.1 h⟩
  · rintro ⟨word, power, hscientific, hrange⟩
    exact hscientific.isSome_number?_iff.2 hrange

/-- The number of a numeral in range. -/
def value (t : NumeralText) : Number := t.number?.getD default

theorem number?_eq_some_iff {t : NumeralText} {n : Number} :
    t.number? = some n ↔ t.InRange ∧ t.value = n := by
  rw [← isSome_number?_iff, value]
  cases t.number? <;> simp

theorem number?_eq_none_iff {t : NumeralText} : t.number? = none ↔ ¬t.InRange := by
  rw [← isSome_number?_iff, Option.not_isSome_iff_eq_none]

end NumeralText

end Json

end SealedCustody
