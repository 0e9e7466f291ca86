/-!
# Decimal numbers

Numbers in decimal digits as they are given by hand: leading zeros do no harm, and a plus may stand in
front.
-/

namespace SealedCustody.Decimal

/-- The number of decimal digits, at least one of them. -/
def digits? (cs : List Char) : Option Nat :=
  if cs.isEmpty ∨ !cs.all Char.isDigit then none
  else some (cs.foldl (fun n c => n * 10 + (c.toNat - '0'.toNat)) 0)

/-- A number without a sign, or with a plus in front. -/
def unsigned? (s : String) : Option Nat :=
  match s.toList with
  | '+' :: rest => digits? rest
  | cs => digits? cs

/-- Whether characters are an exponent behind its letter, or nothing. -/
def isExponent : List Char → Bool
  | [] => true
  | c :: rest =>
    (c = 'e' || c = 'E') &&
      match rest with
      | '+' :: rest | '-' :: rest => (digits? rest).isSome
      | rest => (digits? rest).isSome

/-- Whether characters are digits around a point, on one side of it at least, and an exponent. The
point and the exponent may be left out. -/
def isFloat (cs : List Char) : Bool :=
  let whole := cs.takeWhile Char.isDigit
  match cs.dropWhile Char.isDigit with
  | '.' :: rest =>
    !(whole.isEmpty && (rest.takeWhile Char.isDigit).isEmpty) && isExponent (rest.dropWhile Char.isDigit)
  | rest => !whole.isEmpty && isExponent rest

end SealedCustody.Decimal
