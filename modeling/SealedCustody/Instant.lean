import SealedCustody.Text.Blank

/-!
# Instants in RFC 3339 form

An instant is a count of seconds since the start of 1970 in UTC and a count of nanoseconds, which is
`10 ^ 9` or more only inside a leap second. Writing gives the time in UTC with no fraction or one of
three, six or nine digits. Reading takes any offset and is lenient: blanks may stand between the parts
and a two-digit part may have one digit.
-/

namespace SealedCustody

/-- A moment in time. -/
structure Instant where
  seconds : Int
  nanos : Nat
deriving DecidableEq, Repr, Inhabited

namespace Instant

/-- Earlier before later. -/
def order (a b : Instant) : Ordering := (compare a.seconds b.seconds).then (compare a.nanos b.nanos)

/-! ## Calendar -/

/-- A day of the Gregorian calendar, extended in both directions. -/
structure Day where
  year : Int
  month : Nat
  day : Nat
deriving DecidableEq, Repr

/-- Whether a year has a twenty-ninth of February. -/
def isLeap (y : Int) : Bool := y % 4 = 0 && (y % 100 ≠ 0 || y % 400 = 0)

/-- The number of days in a month. -/
def daysIn (y : Int) (m : Nat) : Nat :=
  if m = 2 then (if isLeap y then 29 else 28)
  else if m = 4 || m = 6 || m = 9 || m = 11 then 30 else 31

/-- Days from the start of 1970. Years are counted from March, so that the leap day comes last. -/
def Day.number (d : Day) : Int :=
  let y := if d.month ≤ 2 then d.year - 1 else d.year
  let era := y.fdiv 400
  let yoe := y - era * 400
  let m : Int := if 2 < d.month then d.month - 3 else d.month + 9
  let doy := (153 * m + 2) / 5 + d.day - 1
  let doe := yoe * 365 + yoe / 4 - yoe / 100 + doy
  era * 146097 + doe - 719468

/-- The day that is so many days from the start of 1970. -/
def Day.ofNumber (n : Int) : Day :=
  let z := n + 719468
  let era := z.fdiv 146097
  let doe := z - era * 146097
  let yoe := (doe - doe / 1460 + doe / 36524 - doe / 146096) / 365
  let doy := doe - (365 * yoe + yoe / 4 - yoe / 100)
  let mp := (5 * doy + 2) / 153
  let d := doy - (153 * mp + 2) / 5 + 1
  let m := if mp < 10 then mp + 3 else mp - 9
  let y := yoe + era * 400
  ⟨if m ≤ 2 then y + 1 else y, m.toNat, d.toNat⟩

/-- The first and last year that an instant may fall in. -/
def yearInRange (y : Int) : Bool := -262143 ≤ y && y ≤ 262142

/-! ## Writing -/

/-- Digits with leading zeros up to a width. -/
def padded (width n : Nat) : List Char :=
  let ds := Nat.toDigits 10 n
  List.replicate (width - ds.length) '0' ++ ds

/-- A year: four digits, or a sign and at least four. -/
def yearText (y : Int) : List Char :=
  if 0 ≤ y ∧ y ≤ 9999 then padded 4 y.toNat
  else (if y < 0 then '-' else '+') :: padded 4 y.natAbs

/-- A fraction of a second: nothing, or three, six or nine digits. -/
def fractionText (nanos : Nat) : List Char :=
  if nanos = 0 then []
  else if nanos % 1000000 = 0 then '.' :: padded 3 (nanos / 1000000)
  else if nanos % 1000 = 0 then '.' :: padded 6 (nanos / 1000)
  else '.' :: padded 9 nanos

/-- The instant in UTC. -/
def text (t : Instant) : String :=
  let d := Day.ofNumber (t.seconds.fdiv 86400)
  let s := (t.seconds.fmod 86400).toNat
  let leap := 1000000000 ≤ t.nanos
  let second := s % 60 + (if leap then 1 else 0)
  let nanos := if leap then t.nanos - 1000000000 else t.nanos
  String.ofList (yearText d.year ++ '-' :: padded 2 d.month ++ '-' :: padded 2 d.day ++ 'T' ::
    padded 2 (s / 3600) ++ ':' :: padded 2 (s / 60 % 60) ++ ':' :: padded 2 second
    ++ fractionText nanos ++ ['Z'])

/-! ## Reading -/

/-- A decimal digit. -/
def isDigit (c : Char) : Bool := '0' ≤ c && c ≤ '9'

/-- The number that digits spell. -/
def digitsValue (cs : List Char) : Nat := cs.foldl (fun n c => n * 10 + (c.toNat - '0'.toNat)) 0

/-- At least one digit and at most so many, after blanks. -/
def number? (width : Nat) (cs : List Char) : Option (Nat × List Char) :=
  let ds := ((Text.dropBlanks cs).takeWhile isDigit).take width
  if ds.isEmpty then none else some (digitsValue ds, (Text.dropBlanks cs).drop ds.length)

/-- A year: up to four digits, or a sign and any number of digits. -/
def year? (cs : List Char) : Option (Int × List Char) :=
  match Text.dropBlanks cs with
  | '-' :: rest => if rest.head?.any isDigit then
      (number? rest.length rest).map fun (n, rest) => (-(n : Int), rest) else none
  | '+' :: rest => if rest.head?.any isDigit then
      (number? rest.length rest).map fun (n, rest) => ((n : Int), rest) else none
  | cs => (number? 4 cs).map fun (n, rest) => ((n : Int), rest)

/-- A separator after blanks. -/
def separator? (sep : Char) (cs : List Char) : Option (List Char) :=
  match Text.dropBlanks cs with
  | c :: rest => if c = sep then some rest else none
  | [] => none

/-- A fraction of a second in nanoseconds; digits past the ninth are dropped. -/
def fraction? : List Char → Option (Nat × List Char)
  | '.' :: rest =>
    let ds := rest.takeWhile isDigit
    if ds.isEmpty then none
    else
      let nine := ds.take 9
      some (digitsValue nine * Nat.pow 10 (9 - nine.length), rest.drop ds.length)
  | cs => some (0, cs)

/-- Two digits. -/
def pair? : List Char → Option (Nat × List Char)
  | a :: b :: rest => if isDigit a && isDigit b then some (digitsValue [a, b], rest) else none
  | _ => none

/-- An offset from UTC in seconds. -/
def offset? (cs : List Char) : Option (Int × List Char) :=
  match cs with
  | 'Z' :: rest | 'z' :: rest => some (0, rest)
  | sign :: rest =>
    if [sign, rest.headD ' ', (rest.drop 1).headD ' '].map Char.toUpper = ['U', 'T', 'C'] then
      some (0, rest.drop 2)
    else if sign = '+' ∨ sign = '-' ∨ sign = '\u2212' then do
      let (h, rest) ← pair? rest
      let (m, rest) ← pair? (rest.dropWhile fun c => c = ':' || Text.isBlank c)
      if 60 ≤ m then none
      else
        let s : Int := h * 3600 + m * 60
        if 86400 ≤ s then none else some (if sign = '+' then s else -s, rest)
    else none
  | [] => none

/-- The instant that a text gives. -/
def ofText? (s : String) : Option Instant := do
  let (y, cs) ← year? s.toList
  let cs ← separator? '-' cs
  let (mo, cs) ← number? 2 cs
  let cs ← separator? '-' cs
  let (d, cs) ← number? 2 cs
  let cs ← match cs with
    | c :: rest => if c = 'T' ∨ c = 't' ∨ c = ' ' then some rest else none
    | [] => none
  let (h, cs) ← number? 2 cs
  let cs ← separator? ':' cs
  let (mi, cs) ← number? 2 cs
  let cs ← separator? ':' cs
  let (sec, cs) ← number? 2 cs
  let (nanos, cs) ← fraction? cs
  let (offset, cs) ← offset? (Text.dropBlanks cs)
  if !(Text.dropBlanks cs).isEmpty then none
  else if !(yearInRange y && 1 ≤ mo && mo ≤ 12 && 1 ≤ d && d ≤ daysIn y mo) then none
  else if !(h ≤ 23 && mi ≤ 59 && sec ≤ 60) then none
  else
    let leap := sec = 60
    let local_ : Int := (Day.number ⟨y, mo, d⟩) * 86400 + h * 3600 + mi * 60
      + (if leap then 59 else sec)
    let utc := local_ - offset
    if yearInRange (Day.ofNumber (utc.fdiv 86400)).year then
      some ⟨utc, nanos + (if leap then 1000000000 else 0)⟩
    else none

end Instant

end SealedCustody
