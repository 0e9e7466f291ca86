import SealedCustody.Criteria
import Mathlib.Logic.ExistsUnique

/-!
# Comparing integers

A JSON integer lies between minus two to the 63rd and two to the 64th. It is held in one way only, and
seen through two words: the signed one, which a large integer does not fit, and the unsigned one, which
a negative integer does not fit. Rules compare integers through whichever word both fit, and where there
is none the one that fits the signed word is the smaller.

Each word is looked at once, for what it says of the integer (`Number.signed?_cases`,
`Number.unsigned?_cases`). That the order of two numbers is the order of the integers
(`Number.integerOrder?_eq`) is then the same argument for each of the four ways in which the words may
fit, and no rule on integers has to fall back on doubles (`Rule.integers_compare_exactly`).
-/

namespace SealedCustody

namespace Json.Number

variable {x y : Number} {i j : Int}

/-! ## The words of an integer -/

/-- Only a large integer does not fit a signed word. -/
theorem signed?_cases (h : x.toInt? = some i) :
    (∃ s, x.signed? = some s ∧ s.toInt = i) ∨ (x.signed? = none ∧ 0x8000000000000000 ≤ i) := by
  cases x with
  | natural n =>
    obtain rfl : (n.toNat : Int) = i := Option.some.inj h
    unfold signed?
    by_cases hn : n.toNat < 0x8000000000000000
    · exact Or.inl ⟨Int64.ofNat n.toNat, if_pos hn, Int64.toInt_ofNat_of_lt hn⟩
    · exact Or.inr ⟨if_neg hn, by omega⟩
  | negative s hs => exact Or.inl ⟨s, rfl, Option.some.inj h⟩
  | double d => cases h

/-- Only a negative integer does not fit an unsigned word. -/
theorem unsigned?_cases (h : x.toInt? = some i) :
    (∃ u, x.unsigned? = some u ∧ (u.toNat : Int) = i) ∨ (x.unsigned? = none ∧ i < 0) := by
  cases x with
  | natural n => exact Or.inl ⟨n, rfl, Option.some.inj h⟩
  | negative s hs =>
    obtain rfl : s.toInt = i := Option.some.inj h
    exact Or.inr ⟨rfl, Int64.lt_iff_toInt_lt.1 hs⟩
  | double d => cases h

theorem isDouble_eq_false (h : x.toInt? = some i) : x.isDouble = false := by
  cases x with
  | double d => cases h
  | _ => rfl

/-! ## The order of two integers -/

/-- Comparing looks at nothing but what is smaller and what is equal. -/
theorem compareOfLessAndEq_congr {α β : Type} [LT α] [LT β] [DecidableLT α] [DecidableLT β]
    [DecidableEq α] [DecidableEq β] {a a' : α} {b b' : β} (hlt : a < a' ↔ b < b')
    (heq : a = a' ↔ b = b') : compareOfLessAndEq a a' = compareOfLessAndEq b b' := by
  simp only [compareOfLessAndEq, hlt, heq]

theorem compare_signed (s t : Int64) : compare s t = compare s.toInt t.toInt :=
  compareOfLessAndEq_congr Int64.lt_iff_toInt_lt Int64.toInt_inj.symm

theorem compare_unsigned (u v : UInt64) : compare u v = compare (u.toNat : Int) v.toNat :=
  compareOfLessAndEq_congr (UInt64.lt_iff_toNat_lt.trans Int.ofNat_lt.symm)
    (UInt64.toNat_inj.symm.trans Int.ofNat_inj.symm)

/-- Two numbers that are integers have the order of the integers. -/
theorem integerOrder?_eq (hx : x.toInt? = some i) (hy : y.toInt? = some j) :
    x.integerOrder? y = some (compare i j) := by
  unfold integerOrder?
  rw [isDouble_eq_false hx, isDouble_eq_false hy, Bool.or_false, if_neg Bool.false_ne_true]
  rcases signed?_cases hx with ⟨s, hs, rfl⟩ | ⟨hs, hi⟩ <;>
    rcases signed?_cases hy with ⟨t, ht, rfl⟩ | ⟨ht, hj⟩
  · rw [hs, ht]
    exact congrArg some (compare_signed s t)
  · -- the second is large, so both fit an unsigned word unless the first is negative
    obtain ⟨v, hv, rfl⟩ := (unsigned?_cases hy).resolve_right fun h => by omega
    rcases unsigned?_cases hx with ⟨u, hu, hsu⟩ | ⟨hu, hneg⟩
    · rw [hs, ht, hu, hv, ← hsu]
      exact congrArg some (compare_unsigned u v)
    · rw [hs, ht, hu, hv, Int.compare_eq_lt.2 (by omega)]
  · obtain ⟨u, hu, rfl⟩ := (unsigned?_cases hx).resolve_right fun h => by omega
    rcases unsigned?_cases hy with ⟨v, hv, htv⟩ | ⟨hv, hneg⟩
    · rw [hs, ht, hu, hv, ← htv]
      exact congrArg some (compare_unsigned u v)
    · rw [hs, ht, hu, hv, Int.compare_eq_gt.2 (by omega)]
  · obtain ⟨u, hu, rfl⟩ := (unsigned?_cases hx).resolve_right fun h => by omega
    obtain ⟨v, hv, rfl⟩ := (unsigned?_cases hy).resolve_right fun h => by omega
    rw [hs, ht, hu, hv]
    exact congrArg some (compare_unsigned u v)

/-- The order of two numbers: between integers their own, else that of the nearest doubles. -/
def order (x y : Number) : Ordering :=
  match x.integerOrder? y with
  | some o => o
  | none => x.toBinary64.order y.toBinary64

theorem order_eq (hx : x.toInt? = some i) (hy : y.toInt? = some j) : x.order y = compare i j := by
  unfold order
  rw [integerOrder?_eq hx hy]

/-- Two numbers that are integers agree just when they are the same integer. -/
theorem agrees_iff (hx : x.toInt? = some i) (hy : y.toInt? = some j) : x.agrees y = true ↔ i = j := by
  unfold agrees
  rw [integerOrder?_eq hx hy]
  exact beq_iff_eq.trans Int.compare_eq_eq

/-! ## The integers that are held -/

/-- An integer of at most 64 bits is held in one way. -/
theorem existsUnique_toInt? (hi : -0x8000000000000000 ≤ i ∧ i < 0x10000000000000000) :
    ∃! n : Number, n.toInt? = some i := by
  by_cases hneg : i < 0
  · have hword : (Int64.ofInt i).toInt = i := Int64.toInt_ofInt_of_le hi.1 (by omega)
    have hword_neg : Int64.ofInt i < 0 := Int64.lt_iff_toInt_lt.2 (by rwa [hword])
    refine ⟨.negative (Int64.ofInt i) hword_neg, congrArg some hword, fun n hn => ?_⟩
    cases n with
    | natural m =>
      have hm : (m.toNat : Int) = i := Option.some.inj hn
      omega
    | negative s hs =>
      obtain rfl : s.toInt = i := Option.some.inj hn
      congr
      exact (Int64.ofInt_toInt s).symm
    | double d => cases hn
  · obtain ⟨m, rfl⟩ := Int.eq_ofNat_of_zero_le (Int.not_lt.1 hneg)
    have hm : m < UInt64.size := Int.ofNat_lt.1 hi.2
    have hword : (UInt64.ofNat m).toNat = m := UInt64.toNat_ofNat_of_lt' hm
    refine ⟨.natural (UInt64.ofNat m), congrArg (some ∘ Int.ofNat) hword, fun n hn => ?_⟩
    cases n with
    | natural k =>
      have hk : (k.toNat : Int) = m := Option.some.inj hn
      obtain rfl : k.toNat = m := Int.ofNat_inj.1 hk
      rw [UInt64.ofNat_toNat]
    | negative s hs =>
      have hm : s.toInt = m := Option.some.inj hn
      have hs := Int64.lt_iff_toInt_lt.1 hs
      exact absurd (hm ▸ hs) (Int.not_lt.2 (Int.natCast_nonneg m))
    | double d => cases hn

end Json.Number

namespace Rule

open Json

variable {field : String} {record : Record} {x y : Number} {i j : Int}

theorem check_of_resolve {r : Rule} {actual : Value} (h : record.resolve r.field = some actual) :
    r.check record = r.checkValue actual := by
  unfold check
  rw [h]

theorem numericOrder_number (op : Comparison) :
    (⟨field, op, .number y⟩ : Rule).numericOrder (.number x) = .ok (x.order y) := by
  unfold numericOrder Number.order
  dsimp only
  cases x.integerOrder? y <;> rfl

theorem numericOrder_eq (op : Comparison) (hx : x.toInt? = some i) (hy : y.toInt? = some j) :
    (⟨field, op, .number y⟩ : Rule).numericOrder (.number x) = .ok (compare i j) := by
  rw [numericOrder_number, Number.order_eq hx hy]

/-- Integers of at most 64 bits are each held in one way, and a rule on two of them answers as they
compare: no rule on integers has no answer, and none looks at doubles. -/
theorem integers_compare_exactly (i j : Int)
    (hi : -0x8000000000000000 ≤ i ∧ i < 0x10000000000000000)
    (hj : -0x8000000000000000 ≤ j ∧ j < 0x10000000000000000) :
    (∃! x : Number, x.toInt? = some i) ∧ (∃! y : Number, y.toInt? = some j) ∧
    ∀ (x y : Number) (field : String) (record : Record), x.toInt? = some i → y.toInt? = some j →
      record.resolve field = some (.number x) →
      x.integerOrder? y = some (compare i j) ∧
      (⟨field, .greater, .number y⟩ : Rule).check record = .ok (decide (j < i)) ∧
      (⟨field, .less, .number y⟩ : Rule).check record = .ok (decide (i < j)) ∧
      (⟨field, .equal, .number y⟩ : Rule).check record = .ok (decide (i = j)) := by
  refine ⟨Number.existsUnique_toInt? hi, Number.existsUnique_toInt? hj, ?_⟩
  intro x y field record hx hy hfield
  refine ⟨Number.integerOrder?_eq hx hy, ?_, ?_, ?_⟩
  · have hgt : (compare i j == .gt) = decide (j < i) := by
      rw [Bool.eq_iff_iff, beq_iff_eq, Int.compare_eq_gt, decide_eq_true_iff]
    rw [check_of_resolve hfield, checkValue, numericOrder_eq _ hx hy, ← hgt]
    rfl
  · have hlt : (compare i j == .lt) = decide (i < j) := by
      rw [Bool.eq_iff_iff, beq_iff_eq, Int.compare_eq_lt, decide_eq_true_iff]
    rw [check_of_resolve hfield, checkValue, numericOrder_eq _ hx hy, ← hlt]
    rfl
  · have heq : x.agrees y = decide (i = j) := by
      rw [Bool.eq_iff_iff, Number.agrees_iff hx hy, decide_eq_true_iff]
    rw [check_of_resolve hfield, checkValue, ← heq]
    rfl

/-- The largest integer there is against a negative one: no word fits both. -/
theorem integers_compare_exactly_at_largest :
    let i : Int := 0xFFFFFFFFFFFFFFFF
    let x : Number := .natural 0xFFFFFFFFFFFFFFFF
    let y : Number := .negative (-1) (by decide)
    let record : Record := [("n", .number x)]
    (-0x8000000000000000 ≤ i ∧ i < 0x10000000000000000) ∧
      ((-0x8000000000000000 : Int) ≤ -1 ∧ (-1 : Int) < 0x10000000000000000) ∧
      x.toInt? = some i ∧ y.toInt? = some (-1) ∧ record.resolve "n" = some (.number x) ∧
      (⟨"n", .greater, .number y⟩ : Rule).check record = .ok true := by
  intro i x y record
  have hi : -0x8000000000000000 ≤ i ∧ i < 0x10000000000000000 := by decide
  have hj : (-0x8000000000000000 : Int) ≤ -1 ∧ (-1 : Int) < 0x10000000000000000 := by decide
  have hx : x.toInt? = some i := rfl
  have hy : y.toInt? = some (-1) := by decide
  have hfield : record.resolve "n" = some (.number x) := rfl
  obtain ⟨-, hgreater, -, -⟩ := (integers_compare_exactly i (-1) hi hj).2.2 x y "n" record hx hy hfield
  exact ⟨hi, hj, hx, hy, hfield, hgreater⟩

end Rule

end SealedCustody
