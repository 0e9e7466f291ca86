import SealedCustody.Number.Base128

/-!
# Tagged fields

A sequence of fields in the Protocol Buffers encoding. A field is a key, which gives its number and the
kind of its payload, and the payload: a number, octets after their count, four or eight octets, or a
group, which is a sequence of fields that a key of the same number closes. What stands in a group is
of no use to a reader and only has to be well formed.
-/

namespace SealedCustody.Protobuf

/-- What stands behind a key. -/
inductive Payload where
  | number (n : Nat)
  | octets (bs : List UInt8)
  /-- Four or eight octets. -/
  | fixed (bs : List UInt8)
  /-- The start of a group. -/
  | opening
  /-- The end of a group. -/
  | closing
deriving DecidableEq, Repr

/-- A key with its payload. -/
structure Field where
  number : Nat
  payload : Payload
deriving DecidableEq, Repr

/-- The number and the kind that a key gives. A key has 32 bits, and no field has the number zero. -/
def key? (bs : List UInt8) : Option (Nat × Nat × List UInt8) :=
  match Base128.word? bs with
  | some (key, rest) =>
    if key < UInt32.size ∧ key / 8 ≠ 0 then some (key / 8, key % 8, rest) else none
  | none => none

/-- So many octets, and what follows them. -/
def octets? (n : Nat) (bs : List UInt8) : Option (List UInt8 × List UInt8) :=
  if n ≤ bs.length then some (bs.take n, bs.drop n) else none

/-- The payload of a kind, and what follows it. -/
def payload? (kind : Nat) (bs : List UInt8) : Option (Payload × List UInt8) :=
  match kind with
  | 0 => (Base128.word? bs).map fun (n, rest) => (.number n, rest)
  | 1 => (octets? 8 bs).map fun (octets, rest) => (.fixed octets, rest)
  | 2 =>
    match Base128.word? bs with
    | some (n, rest) => (octets? n rest).map fun (octets, rest) => (.octets octets, rest)
    | none => none
  | 3 => some (.opening, bs)
  | 4 => some (.closing, bs)
  | 5 => (octets? 4 bs).map fun (octets, rest) => (.fixed octets, rest)
  | _ => none

/-- A key leaves fewer octets. -/
theorem key?_length {bs : List UInt8} {number kind : Nat} {rest : List UInt8}
    (h : key? bs = some (number, kind, rest)) : rest.length < bs.length := by
  unfold key? at h
  split at h
  · rename_i found
    split at h
    · simp only [Option.some.injEq, Prod.mk.injEq] at h
      exact h.2.2 ▸ Base128.word?_length found
    · simp at h
  · simp at h

/-- Octets that are taken leave no more than there were. -/
theorem octets?_length {n : Nat} {bs octets rest : List UInt8}
    (h : octets? n bs = some (octets, rest)) : rest.length ≤ bs.length := by
  unfold octets? at h
  split at h
  · simp only [Option.some.injEq, Prod.mk.injEq] at h
    simp [← h.2]
  · simp at h

/-- A payload leaves no more octets than there were. -/
theorem payload?_length {kind : Nat} {bs : List UInt8} {p : Payload} {rest : List UInt8}
    (h : payload? kind bs = some (p, rest)) : rest.length ≤ bs.length := by
  unfold payload? at h
  split at h
  · obtain ⟨⟨n, r⟩, found, eq⟩ := Option.map_eq_some_iff.1 h
    obtain ⟨-, rfl⟩ := Prod.mk.inj eq
    exact Nat.le_of_lt (Base128.word?_length found)
  · obtain ⟨⟨octets, r⟩, found, eq⟩ := Option.map_eq_some_iff.1 h
    obtain ⟨-, rfl⟩ := Prod.mk.inj eq
    exact octets?_length found
  · split at h
    · rename_i n r count
      obtain ⟨⟨octets, r'⟩, found, eq⟩ := Option.map_eq_some_iff.1 h
      obtain ⟨-, rfl⟩ := Prod.mk.inj eq
      exact Nat.le_trans (octets?_length found) (Nat.le_of_lt (Base128.word?_length count))
    · simp at h
  · simp only [Option.some.injEq, Prod.mk.injEq] at h
    simp [← h.2]
  · simp only [Option.some.injEq, Prod.mk.injEq] at h
    simp [← h.2]
  · obtain ⟨⟨octets, r⟩, found, eq⟩ := Option.map_eq_some_iff.1 h
    obtain ⟨-, rfl⟩ := Prod.mk.inj eq
    exact octets?_length found
  · simp at h

/-- All keys with their payloads, those that stand in groups among them. -/
def flat? (bs : List UInt8) : Option (List Field) :=
  if bs.isEmpty then some []
  else
    match hk : key? bs with
    | none => none
    | some (number, kind, rest) =>
      match hp : payload? kind rest with
      | none => none
      | some (payload, rest') =>
        have : rest'.length < bs.length :=
          Nat.lt_of_le_of_lt (payload?_length hp) (key?_length hk)
        (flat? rest').map (⟨number, payload⟩ :: ·)
termination_by bs.length

/-- The most groups that stand in one another. -/
def maxDepth : Nat := 100

/-- The fields that stand in no group, if every group is closed in its turn. `around` are the groups
that stand open, the inmost first. -/
def outer? (around : List Nat) : List Field → Option (List Field)
  | [] => if around.isEmpty then some [] else none
  | field :: fields =>
    let keep := fun rest => if around.isEmpty then field :: rest else rest
    if field.payload = .closing then
      match around with
      | [] => none
      | number :: around => if number = field.number then outer? around fields else none
    else if maxDepth ≤ around.length then none
    else if field.payload = .opening then (outer? (field.number :: around) fields).map keep
    else (outer? around fields).map keep

/-- The fields that stand in no group. -/
def fields? (bs : List UInt8) : Option (List Field) := (flat? bs).bind (outer? [])

/-- The number that a payload is. -/
def Payload.number? : Payload → Option Nat
  | number n => some n
  | _ => none

/-- The octets that a payload is. -/
def Payload.octets? : Payload → Option (List UInt8)
  | octets bs => some bs
  | _ => none

/-- What the last of the fields of a number holds; each of them has to be readable. -/
def last? {α : Type} (fields : List Field) (number : Nat) (read? : Payload → Option α) (dflt : α) :
    Option α :=
  (fields.filter (·.number = number)).foldlM (fun _ field => read? field.payload) dflt

end SealedCustody.Protobuf
