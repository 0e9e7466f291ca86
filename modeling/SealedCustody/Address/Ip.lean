import SealedCustody.Text.Hex

/-!
# Internet addresses

Four decimal octets without leading zeros, and eight groups of hexadecimal digits of which the longest
run of at least two zero groups, the first of several, is written `::`. An address that maps one of
the first kind into the second is written with its decimal octets.
-/

namespace SealedCustody

/-- An address of 32 bits. -/
structure Ip4 where
  a : UInt8
  b : UInt8
  c : UInt8
  d : UInt8
deriving DecidableEq, Repr, Inhabited

/-- An address of 128 bits, as eight groups. -/
structure Ip6 where
  groups : List UInt16
deriving DecidableEq, Repr, Inhabited

namespace Ip

/-- Up to `width` digits below a base, and no more: a further digit is refused. -/
def digits? (value? : Char → Option Nat) (width : Nat) (cs : List Char) :
    Option (List Nat × List Char) :=
  let ds := cs.takeWhile fun c => (value? c).isSome
  if ds.isEmpty ∨ width < ds.length then none else some (ds.filterMap value?, cs.drop ds.length)

/-- The value of a decimal digit. -/
def decimal? (c : Char) : Option Nat :=
  if '0' ≤ c ∧ c ≤ '9' then some (c.toNat - '0'.toNat) else none

/-- One decimal octet without leading zeros. -/
def octet? (cs : List Char) : Option (UInt8 × List Char) := do
  let (ds, rest) ← digits? decimal? 3 cs
  let n := ds.foldl (fun n d => n * 10 + d) 0
  if 255 < n ∨ (ds.head? = some 0 ∧ 1 < ds.length) then none else some (n.toUInt8, rest)

/-- A given character. -/
def char? (c : Char) : List Char → Option (List Char)
  | d :: rest => if d = c then some rest else none
  | [] => none

/-- Four octets with dots between them. -/
def quad? (cs : List Char) : Option (Ip4 × List Char) := do
  let (a, cs) ← octet? cs
  let (b, cs) ← octet? (← char? '.' cs)
  let (c, cs) ← octet? (← char? '.' cs)
  let (d, cs) ← octet? (← char? '.' cs)
  some (⟨a, b, c, d⟩, cs)

/-- One group of up to four hexadecimal digits. -/
def group? (cs : List Char) : Option (UInt16 × List Char) := do
  let (ds, rest) ← digits? Hex.value? 4 cs
  some ((ds.foldl (fun n d => n * 16 + d) 0).toUInt16, rest)

/-- The two groups of four octets. -/
def Ip4.groups (q : Ip4) : List UInt16 :=
  [(q.a.toNat * 256 + q.b.toNat).toUInt16, (q.c.toNat * 256 + q.d.toNat).toUInt16]

/-- Up to `limit` groups with colons between them; the last two may be four decimal octets, and then
the result says so. -/
def groups (limit : Nat) (first : Bool) (cs : List Char) : List UInt16 × Bool × List Char :=
  match limit with
  | 0 => ([], false, cs)
  | limit + 1 =>
    match (if first then some cs else char? ':' cs) with
    | none => ([], false, cs)
    | some start =>
      match (if 0 < limit then quad? start else none) with
      | some (q, rest) => (Ip4.groups q, true, rest)
      | none =>
        match group? start with
        | none => ([], false, cs)
        | some (g, rest) =>
          let (gs, quad, rest) := groups limit false rest
          (g :: gs, quad, rest)

end Ip

namespace Ip4

/-- The address that a text gives. -/
def ofText? (s : String) : Option Ip4 :=
  match Ip.quad? s.toList with
  | some (q, []) => some q
  | _ => none

/-- The text of an address. -/
def text (q : Ip4) : String :=
  ".".intercalate ([q.a, q.b, q.c, q.d].map fun b => toString b.toNat)

end Ip4

namespace Ip6

/-- The address that a text gives. -/
def ofText? (s : String) : Option Ip6 :=
  let (head, quad, rest) := Ip.groups 8 true s.toList
  if head.length = 8 then (if rest.isEmpty then some ⟨head⟩ else none)
  else if quad then none
  else match rest with
    | ':' :: ':' :: rest =>
      let (tail, _, rest) := Ip.groups (7 - head.length) true rest
      if rest.isEmpty then
        some ⟨head ++ List.replicate (8 - head.length - tail.length) 0 ++ tail⟩
      else none
    | _ => none

/-- The length of the run of zero groups at the front. -/
def zeroRun (gs : List UInt16) : Nat := (gs.takeWhile (· == 0)).length

/-- The start and length of the longest run of zero groups, the first of several. -/
def longestRun (gs : List UInt16) : Nat × Nat :=
  (List.range gs.length).foldl (fun best i =>
    let n := zeroRun (gs.drop i)
    if best.2 < n then (i, n) else best) (0, 0)

/-- A group without leading zeros. -/
def groupText (g : UInt16) : String := String.ofList (Nat.toDigits 16 g.toNat)

/-- Groups with colons between them. -/
def groupsText (gs : List UInt16) : String := ":".intercalate (gs.map groupText)

/-- The text of an address. -/
def text (ip : Ip6) : String :=
  match ip.groups with
  | [0, 0, 0, 0, 0, 0xffff, hi, lo] =>
    "::ffff:" ++ Ip4.text ⟨(hi.toNat / 256).toUInt8, (hi.toNat % 256).toUInt8,
      (lo.toNat / 256).toUInt8, (lo.toNat % 256).toUInt8⟩
  | gs =>
    let (start, length) := longestRun gs
    if 1 < length then
      groupsText (gs.take start) ++ "::" ++ groupsText (gs.drop (start + length))
    else groupsText gs

end Ip6

end SealedCustody
