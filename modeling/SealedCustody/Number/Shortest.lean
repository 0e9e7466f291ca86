import SealedCustody.Number.Binary64

/-!
# The fewest digits that read back

A decimal numeral of `n` digits stands for a double when it lies in the interval of reals that round
to it. `Binary64.shortest` takes the least `n` for which the interval holds such a numeral and, of
those, the numeral nearest to the value; a tie goes to the even digit. Only the two neighbours of the
value on the grid of `n` digits have to be looked at, because if any point of a grid lies in the
interval then so does one of the value's two neighbours on that grid.

`Layout` says how the digits are set: where positional notation ends and how an exponent is written.
-/

namespace SealedCustody

/-- A positive decimal numeral `digits · 10 ^ scale`. -/
structure Numeral where
  digits : Nat
  scale : Int
deriving DecidableEq, Repr, Inhabited

namespace Numeral

/-- Drops trailing zero digits; `fuel` bounds their number. -/
def trim : Nat → Numeral → Numeral
  | 0, d => d
  | fuel + 1, d =>
    if d.digits ≠ 0 ∧ d.digits % 10 = 0 then trim fuel ⟨d.digits / 10, d.scale + 1⟩ else d

end Numeral

namespace Binary64

/-- The rounding interval, as a triple of fractions over a common denominator: the lower end, the
value and the upper end. -/
structure Interval where
  low : Nat
  value : Nat
  high : Nat
  den : Nat
  closed : Bool
deriving Repr

/-- The reals that round to the magnitude of `x`. Below a power of two the gap is half as wide. -/
def interval (x : Binary64) : Interval :=
  let up := Nat.pow 2 x.exponent.toNat
  let den := 4 * Nat.pow 2 (-x.exponent).toNat
  let v := 4 * x.mantissa * up
  let narrow := x.mantissa = Nat.pow 2 52 ∧ minExponent < x.exponent
  { low := if narrow then v - up else v - 2 * up
    value := v
    high := v + 2 * up
    den
    closed := x.mantissa % 2 = 0 }

namespace Interval

/-- Whether `digits · 10 ^ scale` rounds to the value. -/
def holds (i : Interval) (d : Numeral) : Bool :=
  let lhs := d.digits * Nat.pow 10 d.scale.toNat * i.den
  let k := Nat.pow 10 (-d.scale).toNat
  if i.closed then i.low * k ≤ lhs && lhs ≤ i.high * k
  else i.low * k < lhs && lhs < i.high * k

/-- The number of digits before the decimal point of the value (zero or less for a fraction below
one tenth), searched upward from an estimate that is never too large. -/
def magnitude (i : Interval) : Nat → Int → Int
  | 0, k => k
  | fuel + 1, k =>
    if i.value * Nat.pow 10 (-k).toNat < i.den * Nat.pow 10 k.toNat then k else magnitude i fuel (k + 1)

/-- The neighbour of the value on the grid `10 ^ scale` that rounds to it, if there is one; of two
the nearer, and at equal distance the even one. -/
def neighbour? (i : Interval) (scale : Int) : Option Numeral :=
  let num := i.value * Nat.pow 10 (-scale).toNat
  let den := i.den * Nat.pow 10 scale.toNat
  let below : Numeral := ⟨num / den, scale⟩
  let above : Numeral := ⟨num / den + 1, scale⟩
  let rest := num % den
  match i.holds below, i.holds above with
  | true, true =>
    if 2 * rest < den then some below
    else if den < 2 * rest then some above
    else if below.digits % 2 = 0 then some below else some above
  | true, false => some below
  | false, true => some above
  | false, false => none

/-- The first grid, from one digit upward, with a numeral that rounds to the value. -/
def search (i : Interval) (magnitude : Int) : Nat → Nat → Numeral
  | 0, n => ⟨0, magnitude - n⟩
  | fuel + 1, n =>
    match i.neighbour? (magnitude - n) with
    | some d => d
    | none => search i magnitude fuel (n + 1)

end Interval

/-- The shortest numeral that reads back as the magnitude of `x`, which is not zero. -/
def shortest (x : Binary64) : Numeral :=
  let i := x.interval
  let log2 : Int := x.mantissa.log2 + x.exponent
  let estimate : Int := log2 * 30103 / 100000 - 1
  let magnitude := i.magnitude 8 estimate
  (i.search magnitude 17 1).trim 20

end Binary64

/-- How the digits of a numeral are set. A numeral whose leading digit stands for a power of ten from
`minPower` up to but not including `maxPower` is positional, with at least one digit after the point;
any other carries an exponent whose sign is always written. -/
structure Layout where
  minPower : Int
  maxPower : Int
  exponentMark : Char
deriving Repr

namespace Layout

/-- The decimal digits of a number. -/
def digitsOf (n : Nat) : List Char := Nat.toDigits 10 n

/-- Sets a numeral. -/
def numeral (l : Layout) (d : Numeral) : List Char :=
  let ds := digitsOf d.digits
  let power : Int := ds.length + d.scale - 1
  if l.minPower ≤ power ∧ power < l.maxPower then
    if 0 ≤ d.scale then ds ++ List.replicate d.scale.toNat '0' ++ ['.', '0']
    else if 0 ≤ power then ds.take (power.toNat + 1) ++ '.' :: ds.drop (power.toNat + 1)
    else ['0', '.'] ++ List.replicate (-power - 1).toNat '0' ++ ds
  else
    let mantissa := match ds with
      | [] => []
      | [c] => [c]
      | c :: rest => c :: '.' :: rest
    let sign := if power < 0 then '-' else '+'
    mantissa ++ l.exponentMark :: sign :: digitsOf power.natAbs

/-- Sets a double; zero is positional and keeps its sign. -/
def double (l : Layout) (x : Binary64) : List Char :=
  let sign := if x.negative then ['-'] else []
  if x.mantissa = 0 then sign ++ ['0', '.', '0'] else sign ++ l.numeral x.shortest

end Layout

end SealedCustody
