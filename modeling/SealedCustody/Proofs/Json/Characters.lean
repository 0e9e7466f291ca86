import SealedCustody.Text.Utf8
import Mathlib

/-!
# Characters and their octets

The octets of a text are read as its characters. `decodeOnto_encodeChar` reads one character off the
front, by the number of octets that it takes; the rest is an induction over the text. Conversely octets
that are read as characters throughout are those that the characters are written as
(`eq_encode_of_decode`).
-/

namespace SealedCustody.Utf8

/-! ## The octets of a text -/

theorem toList_loop (bs : ByteArray) (i : Nat) (r : List UInt8) :
    ByteArray.toList.loop bs i r = r.reverse ++ bs.data.toList.drop i := by
  induction i, r using ByteArray.toList.loop.induct bs with
  | case1 i r h ih =>
    have hi : i < bs.data.toList.length := by simpa using h
    rw [ByteArray.toList.loop, if_pos h, ih, List.drop_eq_getElem_cons hi]
    simp [ByteArray.get!, h]
  | case2 i r h =>
    rw [ByteArray.toList.loop, if_neg h, List.drop_of_length_le (by simpa using h), List.append_nil]

/-- The octets of a text are those of its characters, one after another. -/
theorem octets_eq (s : String) : octets s = encode s.toList := by
  have hlist : ∀ bs : ByteArray, bs.toList = bs.data.toList := fun bs => toList_loop bs 0 []
  rw [octets, hlist, String.toUTF8_eq_toByteArray, ← String.utf8Encode_toList, List.utf8Encode,
    List.toList_data_toByteArray, encode]

/-! ## Reading a character -/

/-- The octets of a character, by how many there are. -/
theorem encodeChar_eq (c : Char) : String.utf8EncodeChar c =
    if c.toNat ≤ 0x7f then [UInt8.ofNat c.toNat]
    else if c.toNat ≤ 0x7ff then
      [UInt8.ofNat (c.toNat / 64 % 0x20 + 0xc0), UInt8.ofNat (c.toNat % 0x40 + 0x80)]
    else if c.toNat ≤ 0xffff then
      [UInt8.ofNat (c.toNat / 4096 % 0x10 + 0xe0), UInt8.ofNat (c.toNat / 64 % 0x40 + 0x80),
        UInt8.ofNat (c.toNat % 0x40 + 0x80)]
    else
      [UInt8.ofNat (c.toNat / 262144 % 0x08 + 0xf0), UInt8.ofNat (c.toNat / 4096 % 0x40 + 0x80),
        UInt8.ofNat (c.toNat / 64 % 0x40 + 0x80), UInt8.ofNat (c.toNat % 0x40 + 0x80)] := rfl

theorem continuation?_ofNat {n : Nat} (h : n < 64) :
    continuation? (UInt8.ofNat (n + 0x80)) = some n := by
  have hvalue : (UInt8.ofNat (n + 0x80)).toNat = n + 0x80 := by
    rw [UInt8.toNat_ofNat']
    omega
  unfold continuation?
  rw [if_pos, hvalue]
  · rw [Nat.add_sub_cancel]
  · rw [UInt8.le_iff_toNat_le, UInt8.lt_iff_toNat_lt, hvalue]
    constructor
    · show 0x80 ≤ n + 0x80
      omega
    · show n + 0x80 < 0xc0
      omega

theorem toNat_ofNat {n : Nat} (h : n < 256) : (UInt8.ofNat n).toNat = n := by
  rw [UInt8.toNat_ofNat']
  omega

theorem ofNatAux_toNat (c : Char) (h : c.toNat.isValidChar) : Char.ofNatAux c.toNat h = c := by
  apply Char.ext
  apply UInt32.toNat.inj
  rfl

theorem isValidChar_toNat (c : Char) : c.toNat.isValidChar := c.valid

/-- The octets that a character of two octets is written as are read as that character; `hlow` and
`hhigh` single out the first octet, and the last two steps pass the checks on the number read. -/
theorem sequence?_two (c : Char) (rest : List UInt8) (h : 0x80 ≤ c.toNat) (h' : c.toNat < 0x800) :
    sequence? (UInt8.ofNat (c.toNat / 64 % 0x20 + 0xc0))
      (UInt8.ofNat (c.toNat % 0x40 + 0x80) :: rest) = some (c, 1) := by
  have hfirst : (UInt8.ofNat (c.toNat / 64 % 0x20 + 0xc0)).toNat = c.toNat / 64 + 0xc0 := by
    rw [toNat_ofNat (by omega)]
    omega
  have hlow : ¬ UInt8.ofNat (c.toNat / 64 % 0x20 + 0xc0) < 0xc0 := by
    rw [UInt8.lt_iff_toNat_lt, hfirst]
    show ¬ c.toNat / 64 + 0xc0 < 0xc0
    omega
  have hhigh : UInt8.ofNat (c.toNat / 64 % 0x20 + 0xc0) < 0xe0 := by
    rw [UInt8.lt_iff_toNat_lt, hfirst]
    show c.toNat / 64 + 0xc0 < 0xe0
    omega
  have hvalue : (c.toNat / 64 + 0xc0 - 0xc0) * 64 + c.toNat % 0x40 = c.toNat := by omega
  unfold sequence?
  simp only [if_neg hlow, if_pos hhigh, continuation?_ofNat (n := c.toNat % 0x40) (by omega),
    Option.bind_eq_bind, Option.bind_some, hfirst, hvalue, dif_pos (isValidChar_toNat c), if_pos h,
    ofNatAux_toNat]

theorem sequence?_three (c : Char) (rest : List UInt8) (h : 0x800 ≤ c.toNat)
    (h' : c.toNat < 0x10000) :
    sequence? (UInt8.ofNat (c.toNat / 4096 % 0x10 + 0xe0))
      (UInt8.ofNat (c.toNat / 64 % 0x40 + 0x80) :: UInt8.ofNat (c.toNat % 0x40 + 0x80) :: rest) =
        some (c, 2) := by
  have hfirst : (UInt8.ofNat (c.toNat / 4096 % 0x10 + 0xe0)).toNat = c.toNat / 4096 + 0xe0 := by
    rw [toNat_ofNat (by omega)]
    omega
  have hlow : ∀ m : UInt8, m.toNat ≤ 0xe0 → ¬ UInt8.ofNat (c.toNat / 4096 % 0x10 + 0xe0) < m := by
    intro m hm
    rw [UInt8.lt_iff_toNat_lt, hfirst]
    omega
  have hhigh : UInt8.ofNat (c.toNat / 4096 % 0x10 + 0xe0) < 0xf0 := by
    rw [UInt8.lt_iff_toNat_lt, hfirst]
    show c.toNat / 4096 + 0xe0 < 0xf0
    omega
  have hvalue : ((c.toNat / 4096 + 0xe0 - 0xe0) * 64 + c.toNat / 64 % 0x40) * 64 + c.toNat % 0x40 =
      c.toNat := by omega
  unfold sequence?
  simp only [if_neg (hlow 0xc0 (by decide)), if_neg (hlow 0xe0 (by decide)), if_pos hhigh,
    continuation?_ofNat (n := c.toNat % 0x40) (by omega),
    continuation?_ofNat (n := c.toNat / 64 % 0x40) (by omega), Option.bind_eq_bind,
    Option.bind_some, hfirst, hvalue, dif_pos (isValidChar_toNat c), if_pos h, ofNatAux_toNat]

theorem toNat_lt (c : Char) : c.toNat < 0x110000 := by
  have h := isValidChar_toNat c
  unfold Nat.isValidChar at h
  omega

theorem sequence?_four (c : Char) (rest : List UInt8) (h : 0x10000 ≤ c.toNat) :
    sequence? (UInt8.ofNat (c.toNat / 262144 % 0x08 + 0xf0))
      (UInt8.ofNat (c.toNat / 4096 % 0x40 + 0x80) :: UInt8.ofNat (c.toNat / 64 % 0x40 + 0x80) ::
        UInt8.ofNat (c.toNat % 0x40 + 0x80) :: rest) = some (c, 3) := by
  have hlt := toNat_lt c
  have hfirst : (UInt8.ofNat (c.toNat / 262144 % 0x08 + 0xf0)).toNat = c.toNat / 262144 + 0xf0 := by
    rw [toNat_ofNat (by omega)]
    omega
  have hlow : ∀ m : UInt8, m.toNat ≤ 0xf0 → ¬ UInt8.ofNat (c.toNat / 262144 % 0x08 + 0xf0) < m := by
    intro m hm
    rw [UInt8.lt_iff_toNat_lt, hfirst]
    omega
  have hhigh : UInt8.ofNat (c.toNat / 262144 % 0x08 + 0xf0) < 0xf8 := by
    rw [UInt8.lt_iff_toNat_lt, hfirst]
    show c.toNat / 262144 + 0xf0 < 0xf8
    omega
  have hvalue : (((c.toNat / 262144 + 0xf0 - 0xf0) * 64 + c.toNat / 4096 % 0x40) * 64 +
      c.toNat / 64 % 0x40) * 64 + c.toNat % 0x40 = c.toNat := by omega
  unfold sequence?
  simp only [if_neg (hlow 0xc0 (by decide)), if_neg (hlow 0xe0 (by decide)),
    if_neg (hlow 0xf0 (by decide)), if_pos hhigh,
    continuation?_ofNat (n := c.toNat % 0x40) (by omega),
    continuation?_ofNat (n := c.toNat / 64 % 0x40) (by omega),
    continuation?_ofNat (n := c.toNat / 4096 % 0x40) (by omega), Option.bind_eq_bind,
    Option.bind_some, hfirst, hvalue, dif_pos (isValidChar_toNat c), if_pos h, ofNatAux_toNat]

/-- A first octet outside ASCII is read with those that follow it. -/
theorem decodeOnto_sequence {done : List (Option Char)} {b : UInt8} {c : Char}
    {rest : List UInt8} (more : List UInt8) (hb : 0x80 ≤ b.toNat)
    (h : sequence? b (more ++ rest) = some (c, more.length)) :
    decodeOnto done (b :: (more ++ rest)) = decodeOnto (some c :: done) rest := by
  have hascii : ¬ b < 0x80 := by
    rw [UInt8.lt_iff_toNat_lt]
    show ¬ b.toNat < 0x80
    omega
  rw [decodeOnto, if_neg hascii, h]
  dsimp only
  rw [List.drop_left]

theorem decodeOnto_encodeChar (done : List (Option Char)) (c : Char) (rest : List UInt8) :
    decodeOnto done (String.utf8EncodeChar c ++ rest) = decodeOnto (some c :: done) rest := by
  have hlt := toNat_lt c
  rw [encodeChar_eq]
  -- by the number of octets that the character takes, one to four
  split
  · rename_i h
    have hvalue : (UInt8.ofNat c.toNat).toNat = c.toNat := toNat_ofNat (by omega)
    have hascii : UInt8.ofNat c.toNat < 0x80 := by
      rw [UInt8.lt_iff_toNat_lt, hvalue]
      show c.toNat < 0x80
      omega
    show decodeOnto done (UInt8.ofNat c.toNat :: rest) = _
    rw [decodeOnto, if_pos hascii, hvalue, Char.ofNat_toNat]
  · rename_i h1
    split
    · rename_i h2
      refine decodeOnto_sequence [_] ?_ (sequence?_two c rest (by omega) (by omega))
      rw [toNat_ofNat (by omega)]
      omega
    · rename_i h2
      split
      · rename_i h3
        refine decodeOnto_sequence [_, _] ?_ (sequence?_three c rest (by omega) (by omega))
        rw [toNat_ofNat (by omega)]
        omega
      · rename_i h3
        refine decodeOnto_sequence [_, _, _] ?_ (sequence?_four c rest (by omega))
        rw [toNat_ofNat (by omega)]
        omega

theorem decode_encode (cs : List Char) : decode (encode cs) = cs.map some := by
  -- the induction is on the text, with what was read before it general
  have honto : ∀ (cs : List Char) (done : List (Option Char)),
      decodeOnto done (encode cs) = done.reverse ++ cs.map some := by
    intro cs
    induction cs with
    | nil =>
      intro done
      rw [encode, List.flatMap_nil, decodeOnto, List.map_nil, List.append_nil]
    | cons c cs ih =>
      intro done
      rw [encode, List.flatMap_cons, decodeOnto_encodeChar]
      have hrest := ih (some c :: done)
      rw [encode] at hrest
      rw [hrest, List.reverse_cons, List.append_assoc, List.map_cons]
      rfl
  exact honto cs []

/-- The octets of a text are read as its characters. -/
theorem decode_octets (s : String) : decode (octets s) = s.toList.map some := by
  rw [octets_eq, decode_encode]

/-! ## What is read as characters is their octets -/

theorem of_continuation? {b : UInt8} {n : Nat} (h : continuation? b = some n) :
    0x80 ≤ b.toNat ∧ b.toNat < 0xc0 ∧ n = b.toNat - 0x80 := by
  unfold continuation? at h
  split at h
  · rename_i hb
    rw [UInt8.le_iff_toNat_le, UInt8.lt_iff_toNat_lt] at hb
    exact ⟨hb.1, hb.2, (Option.some.inj h).symm⟩
  · cases h

theorem eq_ofNat {b : UInt8} {n : Nat} (h : b.toNat = n) : b = UInt8.ofNat n := by
  rw [← h, UInt8.ofNat_toNat]

theorem encodeChar_two {b b1 : UInt8} {c : Char} {x : Nat} (hb : 0xc0 ≤ b.toNat)
    (hb' : b.toNat < 0xe0) (hx : continuation? b1 = some x) (hleast : 0x80 ≤ c.toNat)
    (hvalue : c.toNat = (b.toNat - 0xc0) * 64 + x) : String.utf8EncodeChar c = [b, b1] := by
  obtain ⟨h1, h1', hx'⟩ := of_continuation? hx
  rw [encodeChar_eq, if_neg (by omega), if_pos (by omega), ← eq_ofNat (b := b) (by omega),
    ← eq_ofNat (b := b1) (by omega)]

theorem encodeChar_three {b b1 b2 : UInt8} {c : Char} {x y : Nat} (hb : 0xe0 ≤ b.toNat)
    (hb' : b.toNat < 0xf0) (hx : continuation? b1 = some x) (hy : continuation? b2 = some y)
    (hleast : 0x800 ≤ c.toNat) (hvalue : c.toNat = ((b.toNat - 0xe0) * 64 + x) * 64 + y) :
    String.utf8EncodeChar c = [b, b1, b2] := by
  obtain ⟨h1, h1', hx'⟩ := of_continuation? hx
  obtain ⟨h2, h2', hy'⟩ := of_continuation? hy
  rw [encodeChar_eq, if_neg (by omega), if_neg (by omega), if_pos (by omega),
    ← eq_ofNat (b := b) (by omega), ← eq_ofNat (b := b1) (by omega), ← eq_ofNat (b := b2) (by omega)]

theorem encodeChar_four {b b1 b2 b3 : UInt8} {c : Char} {x y z : Nat} (hb : 0xf0 ≤ b.toNat)
    (hb' : b.toNat < 0xf8) (hx : continuation? b1 = some x) (hy : continuation? b2 = some y)
    (hz : continuation? b3 = some z) (hleast : 0x10000 ≤ c.toNat)
    (hvalue : c.toNat = (((b.toNat - 0xf0) * 64 + x) * 64 + y) * 64 + z) :
    String.utf8EncodeChar c = [b, b1, b2, b3] := by
  obtain ⟨h1, h1', hx'⟩ := of_continuation? hx
  obtain ⟨h2, h2', hy'⟩ := of_continuation? hy
  obtain ⟨h3, h3', hz'⟩ := of_continuation? hz
  rw [encodeChar_eq, if_neg (by omega), if_neg (by omega), if_neg (by omega),
    ← eq_ofNat (b := b) (by omega), ← eq_ofNat (b := b1) (by omega), ← eq_ofNat (b := b2) (by omega),
    ← eq_ofNat (b := b3) (by omega)]

/-- A number is taken for a character only if it is one and is not written longer than it has to be. -/
theorem of_scalar {least value n used : Nat} {c : Char}
    (h : (if h : value.isValidChar then
        if least ≤ value then some (Char.ofNatAux value h, n) else none
      else none) = some (c, used)) : least ≤ c.toNat ∧ c.toNat = value ∧ n = used := by
  split at h
  · split at h
    · rename_i hleast
      obtain ⟨rfl, rfl⟩ := Prod.mk.inj (Option.some.inj h)
      exact ⟨hleast, rfl, rfl⟩
    · cases h
  · cases h

/-- The octets read as a character are those that it is written as. -/
theorem of_sequence? {b : UInt8} {rest : List UInt8} {c : Char} {used : Nat}
    (h : sequence? b rest = some (c, used)) :
    ∃ more, rest = more ++ rest.drop used ∧ String.utf8EncodeChar c = b :: more := by
  -- the first octet tells how many there are
  unfold sequence? at h
  simp only [Option.bind_eq_bind, UInt8.lt_iff_toNat_lt] at h
  split at h
  · cases h
  rename_i hlow
  split at h
  · rename_i hhigh
    split at h
    · rename_i b1 rest'
      obtain ⟨x, hx, h⟩ := Option.bind_eq_some_iff.1 h
      obtain ⟨hleast, hvalue, rfl⟩ := of_scalar h
      exact ⟨[b1], rfl, encodeChar_two (Nat.le_of_not_lt hlow) hhigh hx hleast hvalue⟩
    · cases h
  rename_i hlow
  split at h
  · rename_i hhigh
    split at h
    · rename_i b1 b2 rest'
      obtain ⟨x, hx, h⟩ := Option.bind_eq_some_iff.1 h
      obtain ⟨y, hy, h⟩ := Option.bind_eq_some_iff.1 h
      obtain ⟨hleast, hvalue, rfl⟩ := of_scalar h
      exact ⟨[b1, b2], rfl, encodeChar_three (Nat.le_of_not_lt hlow) hhigh hx hy hleast hvalue⟩
    · cases h
  rename_i hlow
  split at h
  · rename_i hhigh
    split at h
    · rename_i b1 b2 b3 rest'
      obtain ⟨x, hx, h⟩ := Option.bind_eq_some_iff.1 h
      obtain ⟨y, hy, h⟩ := Option.bind_eq_some_iff.1 h
      obtain ⟨z, hz, h⟩ := Option.bind_eq_some_iff.1 h
      obtain ⟨hleast, hvalue, rfl⟩ := of_scalar h
      exact ⟨[b1, b2, b3], rfl, encodeChar_four (Nat.le_of_not_lt hlow) hhigh hx hy hz hleast hvalue⟩
    · cases h
  · cases h

theorem exists_decodeOnto (done : List (Option Char)) (bs : List UInt8) :
    ∃ tail, decodeOnto done bs = done.reverse ++ tail := by
  fun_induction decodeOnto done bs with
  | case1 done => exact ⟨[], (List.append_nil _).symm⟩
  | case2 done b rest hb ih =>
    obtain ⟨tail, htail⟩ := ih
    exact ⟨_, by rw [htail, List.reverse_cons, List.append_assoc]⟩
  | case3 done b rest hb c used hc ih =>
    obtain ⟨tail, htail⟩ := ih
    exact ⟨_, by rw [htail, List.reverse_cons, List.append_assoc]⟩
  | case4 done b rest hb hnone ih =>
    obtain ⟨tail, htail⟩ := ih
    exact ⟨_, by rw [htail, List.reverse_cons, List.append_assoc]⟩

/-- Octets that are read as characters throughout are those of the characters. -/
theorem eq_encode_of_decode {bs : List UInt8} {cs : List Char} (h : decode bs = cs.map some) :
    bs = encode cs := by
  have honto : ∀ (done : List (Option Char)) (bs : List UInt8) (cs : List Char),
      decodeOnto done bs = done.reverse ++ cs.map some → bs = encode cs := by
    intro done bs
    -- what is read first is the first of the characters
    have hfirst : ∀ {done s rest} {cs : List Char},
        decodeOnto (s :: done) rest = done.reverse ++ cs.map some →
          ∃ c cs', s = some c ∧ cs = c :: cs' ∧
            decodeOnto (s :: done) rest = (s :: done).reverse ++ cs'.map some := by
      intro done s rest cs h
      obtain ⟨tail, htail⟩ := exists_decodeOnto (s :: done) rest
      rw [htail, List.reverse_cons, List.append_assoc] at h
      have hcs := List.append_cancel_left h
      cases cs with
      | nil => cases hcs
      | cons c cs' =>
        obtain ⟨rfl, rfl⟩ := List.cons.inj hcs
        exact ⟨c, cs', rfl, rfl, htail⟩
    fun_induction decodeOnto done bs with
    | case1 done =>
      intro cs h
      obtain rfl := List.map_eq_nil_iff.1 (List.self_eq_append_right.1 h)
      rfl
    | case2 done b rest hb ih =>
      intro cs h
      obtain ⟨c, cs', hc, rfl, hrest⟩ := hfirst h
      obtain rfl := Option.some.inj hc
      have hb' : b.toNat < 0x80 := UInt8.lt_iff_toNat_lt.1 hb
      have hvalue : (Char.ofNat b.toNat).toNat = b.toNat :=
        (Char.toNat_ofNat b.toNat).trans (if_pos (Or.inl (by omega)))
      rw [encode, List.flatMap_cons, encodeChar_eq, hvalue, if_pos (by omega), UInt8.ofNat_toNat]
      exact congrArg (b :: ·) (ih cs' hrest)
    | case3 done b rest hb c used hc ih =>
      intro cs h
      obtain ⟨c', cs', hc', rfl, hrest⟩ := hfirst h
      obtain rfl := Option.some.inj hc'
      obtain ⟨more, hmore, hencode⟩ := of_sequence? hc
      rw [encode, List.flatMap_cons, hencode, List.cons_append]
      refine congrArg (b :: ·) ?_
      conv_lhs => rw [hmore, ih cs' hrest]
      rfl
    | case4 done b rest hb hnone ih =>
      intro cs h
      obtain ⟨c, cs', hc, -⟩ := hfirst h
      cases hc
  exact honto [] bs cs h

end SealedCustody.Utf8
