/-!
# Finite doubles as exact dyadic rationals

A finite double is a sign, a mantissa below `2 ^ 53` and a power of two no smaller than `2 ^ (-1074)`.
Its value is therefore a whole number of *units*, one unit being `2 ^ (-1074)`, and `Binary64.units`
is that whole number. Comparison is comparison of units. Sums, products and quotients are computed
exactly and rounded once, to the nearest double, a tie going to the even mantissa.
-/

namespace SealedCustody

/-- A finite double: `mantissa · 2 ^ exponent`, negated when `negative` is set. -/
structure Binary64 where
  negative : Bool
  mantissa : Nat
  exponent : Int
deriving DecidableEq, Repr, Inhabited

namespace Binary64

/-- The smallest power of two of any double; one unit is two to this power. -/
def minExponent : Int := -1074

/-- The power of two of the largest doubles. -/
def maxExponent : Int := 971

/-- Zero, with the sign it was written with. -/
def zero (negative : Bool) : Binary64 := ⟨negative, 0, minExponent⟩

/-- The whole number of units that make up the value. -/
def units (x : Binary64) : Int :=
  let magnitude : Int := (x.mantissa * Nat.pow 2 (x.exponent - minExponent).toNat : Nat)
  if x.negative then -magnitude else magnitude

/-- Order by value; the two zeros are equal. -/
def order (x y : Binary64) : Ordering := compare x.units y.units

/-- `num / den` to the nearest whole number, a tie going to the even one. -/
def roundHalfEven (num den : Nat) : Nat :=
  let q := num / den
  let r := num % den
  if 2 * r < den then q
  else if den < 2 * r then q + 1
  else if q % 2 = 0 then q else q + 1

/-- The power of two at which `num / den` has a mantissa of 53 bits, or the smallest power. -/
def exponentOf (num den : Nat) : Int :=
  let e : Int := (num.log2 : Int) - den.log2 - 53
  let wide :=
    if e < 0 then den * Nat.pow 2 53 ≤ num * Nat.pow 2 e.natAbs
    else den * Nat.pow 2 (53 + e.toNat) ≤ num
  max (if wide then e + 1 else e) minExponent

/-- The double nearest to `num / den`, or `none` when that quotient is out of range. -/
def ofRatio? (negative : Bool) (num den : Nat) : Option Binary64 :=
  if num = 0 then some (zero negative)
  else
    let e := exponentOf num den
    let m :=
      if e < 0 then roundHalfEven (num * Nat.pow 2 e.natAbs) den
      else roundHalfEven num (den * Nat.pow 2 e.toNat)
    let x : Binary64 :=
      if m = Nat.pow 2 53 then ⟨negative, Nat.pow 2 52, e + 1⟩ else ⟨negative, m, e⟩
    if maxExponent < x.exponent then none else some x

/-- Units in the value one. -/
def unitsPerOne : Nat := Nat.pow 2 1074

/-- The double nearest to a whole number of 64 bits; such a number is always in range. -/
def ofInt (i : Int) : Binary64 :=
  (ofRatio? (i < 0) i.natAbs 1).getD (zero false)

/-- The product, rounded. -/
def mul? (x y : Binary64) : Option Binary64 :=
  ofRatio? (x.negative != y.negative) (x.units.natAbs * y.units.natAbs) (unitsPerOne * unitsPerOne)

/-- The quotient, rounded; the divisor is not zero. -/
def div? (x y : Binary64) : Option Binary64 :=
  ofRatio? (x.negative != y.negative) x.units.natAbs y.units.natAbs

/-- The difference, rounded. -/
def sub? (x y : Binary64) : Option Binary64 :=
  let d := x.units - y.units
  ofRatio? (d < 0) d.natAbs unitsPerOne

/-- The gap between one and the next double, in units. -/
def epsilonUnits : Nat := Nat.pow 2 1022

/-- Two doubles are close when their rounded difference is below the gap after one. -/
def close (x y : Binary64) : Bool :=
  match sub? x y with
  | some d => d.units.natAbs < epsilonUnits
  | none => false

/-- The same magnitude with the sign set as given. -/
def withSign (negative : Bool) (x : Binary64) : Binary64 := { x with negative }

end Binary64

end SealedCustody
