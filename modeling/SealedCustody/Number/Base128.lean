/-!
# Base 128

A number written in base 128, one digit to an octet and the lowest digit first: the highest bit of an
octet tells that another follows. Reading leaves fewer octets than it is given (`digits?_length`).
-/

namespace SealedCustody.Base128

/-- The digits that octets begin with, and the octets after them. -/
def digits? : List UInt8 → Option (List Nat × List UInt8)
  | [] => none
  | b :: rest =>
    if b < 0x80 then some ([b.toNat], rest)
    else match digits? rest with
      | some (ds, rest') => some ((b.toNat - 0x80) :: ds, rest')
      | none => none

/-- The number of some digits. -/
def value : List Nat → Nat
  | [] => 0
  | d :: ds => d + 128 * value ds

/-- The most digits of a number of 64 bits. -/
def maxDigits : Nat := 10

/-- A number of 64 bits, and the octets after it. It may have needless zeros at its end. -/
def word? (bs : List UInt8) : Option (Nat × List UInt8) :=
  match digits? bs with
  | some (ds, rest) =>
    if ds.length ≤ maxDigits ∧ value ds < UInt64.size then some (value ds, rest) else none
  | none => none

/-- The low 64 bits of a number without a needless zero at its end, and the octets after it. -/
def shortest? (bs : List UInt8) : Option (Nat × List UInt8) :=
  match digits? bs with
  | some (ds, rest) =>
    if ds.length ≤ maxDigits ∧ (ds.length = 1 ∨ ds.getLast? ≠ some 0) then
      some (value ds % UInt64.size, rest)
    else none
  | none => none

/-- The digits take at least one octet. -/
theorem digits?_length {bs : List UInt8} {ds : List Nat} {rest : List UInt8}
    (h : digits? bs = some (ds, rest)) : rest.length < bs.length := by
  induction bs generalizing ds rest with
  | nil => simp [digits?] at h
  | cons b bs ih =>
    unfold digits? at h
    split at h
    · simp only [Option.some.injEq, Prod.mk.injEq] at h
      simp [← h.2]
    · split at h
      · rename_i found
        simp only [Option.some.injEq, Prod.mk.injEq] at h
        have := ih found
        rw [← h.2]
        simp only [List.length_cons]
        omega
      · simp at h

/-- A number takes at least one octet. -/
theorem word?_length {bs : List UInt8} {n : Nat} {rest : List UInt8}
    (h : word? bs = some (n, rest)) : rest.length < bs.length := by
  unfold word? at h
  split at h
  · rename_i found
    split at h
    · simp only [Option.some.injEq, Prod.mk.injEq] at h
      exact h.2 ▸ digits?_length found
    · simp at h
  · simp at h

end SealedCustody.Base128
