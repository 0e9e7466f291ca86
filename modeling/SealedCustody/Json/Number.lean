import SealedCustody.Number.Shortest

/-!
# JSON numbers

A number without fraction or exponent is held in a 64-bit word when one fits: unsigned when it is not
negative, signed when it is. Every other number is a finite double. Two integers are ordered exactly,
through whichever word both fit; a double takes part only as a double.

A numeral is read into a double from its leading digits, as many as fit an unsigned word, and a power
of ten applied by one multiplication or by divisions of at most `10 ^ 308` each. Reading rounds at
each of these steps.
-/

namespace SealedCustody.Json

/-- A number as it is held after reading. -/
inductive Number where
  | natural (n : UInt64)
  | negative (i : Int64) (lt_zero : i < 0)
  | double (x : Binary64)
deriving DecidableEq

namespace Number

instance : Inhabited Number := ⟨.natural 0⟩

/-- Whether the number is held as a double. -/
def isDouble : Number → Bool
  | double _ => true
  | _ => false

/-- The number as a signed word, if it is an integer that fits one. -/
def signed? : Number → Option Int64
  | natural n => if n.toNat < 0x8000000000000000 then some (Int64.ofNat n.toNat) else none
  | negative i _ => some i
  | double _ => none

/-- The number as an unsigned word, if it is an integer that fits one. -/
def unsigned? : Number → Option UInt64
  | natural n => some n
  | _ => none

/-- The integer that the number is, if it is held as one. -/
def toInt? : Number → Option Int
  | natural n => some n.toNat
  | negative i _ => some i.toInt
  | double _ => none

/-- The order of two integers; `none` when either number is a double. Where only one of them fits a
signed word, that one is the smaller. -/
def integerOrder? (x y : Number) : Option Ordering :=
  if x.isDouble || y.isDouble then none
  else match x.signed?, y.signed?, x.unsigned?, y.unsigned? with
    | some a, some b, _, _ => some (compare a b)
    | _, _, some a, some b => some (compare a b)
    | some _, none, _, _ => some .lt
    | none, some _, _, _ => some .gt
    | none, none, _, _ => none

/-- The nearest double. -/
def toBinary64 : Number → Binary64
  | natural n => .ofInt n.toNat
  | negative i _ => .ofInt i.toInt
  | double x => x

/-- A JSON double is positional from `0.00001` up to but not including ten to the sixteenth. -/
def layout : Layout := ⟨-5, 16, 'e'⟩

/-- The text of a number. -/
def text : Number → List Char
  | natural n => Nat.toDigits 10 n.toNat
  | negative i _ => '-' :: Nat.toDigits 10 i.toInt.natAbs
  | double x => layout.double x

end Number

/-! ## Reading numerals -/

/-- The digits of a numeral, in its three parts. -/
structure NumeralText where
  negative : Bool
  whole : List Char
  fraction : Option (List Char)
  exponent : Option (Bool × List Char)
deriving DecidableEq, Repr

/-- The digits taken into an unsigned word: the value taken and the digits left when the next one no
longer fits. -/
def takeWord (n : Nat) : List Char → Nat × List Char
  | [] => (n, [])
  | c :: rest =>
    let next := n * 10 + (c.toNat - '0'.toNat)
    if next < UInt64.size then takeWord next rest else (n, c :: rest)

/-- The number that digits spell. -/
def digitsValue (cs : List Char) : Nat := cs.foldl (fun n c => n * 10 + (c.toNat - '0'.toNat)) 0

/-- Ten to a power up to 308, to the nearest double. -/
def powerOfTen (k : Nat) : Binary64 := (Binary64.ofRatio? false (Nat.pow 10 k) 1).getD (.zero false)

/-- `x` times ten to a power that is not negative, or `none` when that is out of range. -/
def scaleUp? (x : Binary64) (k : Nat) : Option Binary64 :=
  if k ≤ 308 then x.mul? (powerOfTen k) else if x.mantissa = 0 then some x else none

/-- `x` divided by ten to a power, at most `10 ^ 308` at a time. -/
def scaleDown (x : Binary64) (k : Nat) : Option Binary64 :=
  if k ≤ 308 then x.div? (powerOfTen k)
  else if x.mantissa = 0 then some x
  else (x.div? (powerOfTen 308)).bind (scaleDown · (k - 308))
termination_by k

/-- The double read from a word and a power of ten. -/
def scaled? (negative : Bool) (word : Nat) (power : Int) : Option Binary64 :=
  let x := Binary64.ofInt word
  let magnitude := if 0 ≤ power then scaleUp? x power.toNat else scaleDown x power.natAbs
  magnitude.map (·.withSign negative)

namespace NumeralText

/-- An integer held in a word when one fits; minus zero is a double. -/
def integer (negative : Bool) (n : Nat) : Number :=
  if negative then
    let i := -(n : Int)
    if h : 0 < n ∧ n ≤ 0x8000000000000000 ∧ Int64.ofInt i < 0 then .negative (Int64.ofInt i) h.2.2
    else .double ((Binary64.ofInt n).withSign true)
  else .natural n.toUInt64

/-- The power of ten written after the exponent mark. -/
def exponentValue : Option (Bool × List Char) → Int
  | none => 0
  | some (negative, ds) => if negative then -(digitsValue ds : Int) else digitsValue ds

/-- The number that a numeral stands for, or `none` when it is out of range. -/
def number? (t : NumeralText) : Option Number :=
  let (word, excess) := takeWord 0 t.whole
  match excess, t.fraction, t.exponent with
  | [], none, none => some (integer t.negative word)
  | excess, fraction, exponent =>
    let ds := fraction.getD []
    let (word, dropped) := takeWord word ds
    let power : Int := (excess.length : Int) - (ds.length - dropped.length) + exponentValue exponent
    (scaled? t.negative word power).map .double

end NumeralText

end SealedCustody.Json
