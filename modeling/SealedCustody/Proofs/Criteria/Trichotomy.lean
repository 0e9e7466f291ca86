import SealedCustody.Proofs.Criteria.Integers
import SealedCustody.Proofs.Number.Rounding

/-!
# Less, equal and greater

Of the three rules that compare a field with a number, one matches if the numbers are integers. If one of
them is a double they are compared as doubles, and while the order of two doubles looks at what they are,
equality looks at their rounded difference and takes one that is small for none. Numbers that differ by
so little are blurred: they are equal to the rules, and yet one is greater. For all others the three rules
exclude one another, and one of them matches always (`Rule.comparisons_exclusive`).

`Number.order` is the one order that two of the rules go by, and the third is reduced to it: numbers agree
when they are the same in this order or are blurred (`Number.agrees_iff_order`).
-/

namespace SealedCustody

namespace Json.Number

variable {x y : Number}

/-- One of the numbers is a double, and as doubles they differ, but fall short of differing by the gap
after one. The difference counts as rounded, so it falls short by more than the margin. -/
def Blurred (x y : Number) : Prop :=
  (x.isDouble || y.isDouble) = true ∧ x.toBinary64.units ≠ y.toBinary64.units ∧
    (x.toBinary64.units - y.toBinary64.units).natAbs + Binary64.marginUnits < Binary64.epsilonUnits

instance (x y : Number) : Decidable (x.Blurred y) := inferInstanceAs (Decidable (_ ∧ _ ∧ _))

theorem exists_toInt? (h : x.isDouble = false) : ∃ i, x.toInt? = some i := by
  cases x with
  | double d => cases h
  | _ => exact ⟨_, rfl⟩

/-- Only a double has no order as an integer. -/
theorem integerOrder?_eq_none_iff : x.integerOrder? y = none ↔ (x.isDouble || y.isDouble) = true := by
  constructor
  · intro h
    by_contra hint
    rw [Bool.not_eq_true, Bool.or_eq_false_iff] at hint
    obtain ⟨i, hi⟩ := exists_toInt? hint.1
    obtain ⟨j, hj⟩ := exists_toInt? hint.2
    rw [integerOrder?_eq hi hj] at h
    cases h
  · exact fun h => if_pos h

/-- Numbers agree just when they are the same in the order of numbers, or are blurred. -/
theorem agrees_iff_order : x.agrees y = true ↔ x.order y = .eq ∨ x.Blurred y := by
  unfold agrees order Blurred
  rw [← integerOrder?_eq_none_iff]
  cases x.integerOrder? y with
  | some o => simp
  | none =>
    dsimp only [Binary64.order]
    rw [Binary64.close_iff, Int.compare_eq_eq]
    constructor
    · intro hclose
      by_cases hsame : x.toBinary64.units = y.toBinary64.units
      · exact Or.inl hsame
      · exact Or.inr ⟨rfl, hsame, hclose⟩
    · rintro (hsame | ⟨-, -, hclose⟩)
      · rw [hsame, Int.sub_self]
        decide +kernel
      · exact hclose

/-- Blurred numbers are apart in the order of numbers. -/
theorem Blurred.order_ne (h : x.Blurred y) : x.order y ≠ .eq := by
  obtain ⟨hdouble, hne, -⟩ := h
  unfold order
  rw [integerOrder?_eq_none_iff.2 hdouble]
  exact fun heq => hne (Int.compare_eq_eq.1 heq)

end Json.Number

namespace Rule

open Json

variable {field : String} {record : Record} {x y : Number}

/-- The comparisons with a number that match. -/
def matching (field : String) (y : Number) (record : Record) : List Comparison :=
  [.equal, .greater, .less].filter fun op => (⟨field, op, .number y⟩ : Rule).matches record

/-- On numbers a rule matches as they agree or as they are ordered. -/
theorem matching_eq (h : record.resolve field = some (.number x)) :
    matching field y record = (if x.agrees y then [.equal] else []) ++
      match x.order y with
      | .lt => [.less]
      | .eq => []
      | .gt => [.greater] := by
  have hequal : (⟨field, .equal, .number y⟩ : Rule).matches record = x.agrees y := by
    rw [Rule.matches, check_of_resolve h]
    rfl
  have hgreater : (⟨field, .greater, .number y⟩ : Rule).matches record = (x.order y == .gt) := by
    rw [Rule.matches, check_of_resolve h, checkValue, numericOrder_number]
    rfl
  have hless : (⟨field, .less, .number y⟩ : Rule).matches record = (x.order y == .lt) := by
    rw [Rule.matches, check_of_resolve h, checkValue, numericOrder_number]
    rfl
  simp only [matching, List.filter_cons, List.filter_nil, hequal, hgreater, hless]
  cases x.agrees y <;> cases x.order y <;> rfl

/-- Of the rules that compare a field that is a number with a number, exactly one matches, unless the
numbers are blurred: these are equal to the rules, and besides one is greater. -/
theorem comparisons_exclusive (field : String) (record : Record) (x y : Number)
    (h : record.resolve field = some (.number x)) :
    (¬x.Blurred y → ∃ op, matching field y record = [op]) ∧
    (x.Blurred y → matching field y record = [.equal, .greater] ∨
      matching field y record = [.equal, .less]) := by
  rw [matching_eq h]
  constructor
  · intro hsharp
    cases horder : x.order y with
    | eq =>
      rw [if_pos (Number.agrees_iff_order.2 (Or.inl horder))]
      exact ⟨.equal, rfl⟩
    | lt =>
      rw [if_neg fun hagrees => (Number.agrees_iff_order.1 hagrees).elim (by simp [horder]) hsharp]
      exact ⟨.less, rfl⟩
    | gt =>
      rw [if_neg fun hagrees => (Number.agrees_iff_order.1 hagrees).elim (by simp [horder]) hsharp]
      exact ⟨.greater, rfl⟩
  · intro hblurred
    rw [if_pos (Number.agrees_iff_order.2 (Or.inr hblurred))]
    cases horder : x.order y with
    | eq => exact absurd horder hblurred.order_ne
    | lt => exact Or.inr rfl
    | gt => exact Or.inl rfl

/-- Three tenths against the next double: blurred, while the latter against zero is not. -/
theorem comparisons_exclusive_of_tenths :
    let x : Number := .double ⟨false, 0x13333333333334, -54⟩
    let y : Number := .double ⟨false, 0x13333333333333, -54⟩
    let zero : Number := .natural 0
    let record : Record := [("v", .number x)]
    record.resolve "v" = some (.number x) ∧
      (¬x.Blurred zero ∧ ∃ op, matching "v" zero record = [op]) ∧
      (x.Blurred y ∧
        (matching "v" y record = [.equal, .greater] ∨ matching "v" y record = [.equal, .less])) := by
  intro x y zero record
  have hfield : record.resolve "v" = some (.number x) := rfl
  have hsharp : ¬x.Blurred zero := by decide +kernel
  have hblurred : x.Blurred y := by decide +kernel
  exact ⟨hfield, ⟨hsharp, (comparisons_exclusive "v" record x zero hfield).1 hsharp⟩,
    hblurred, (comparisons_exclusive "v" record x y hfield).2 hblurred⟩

/-- The double after three tenths is equal to three tenths and greater than it. -/
theorem comparisons_overlap_at_tenths :
    let x : Number := .double ⟨false, 0x13333333333334, -54⟩
    let y : Number := .double ⟨false, 0x13333333333333, -54⟩
    let record : Record := [("v", .number x)]
    record.resolve "v" = some (.number x) ∧ matching "v" y record = [.equal, .greater] ∧
      ¬∃ op, matching "v" y record = [op] := by
  intro x y record
  have hmatching : matching "v" y record = [.equal, .greater] := by decide +kernel
  refine ⟨rfl, hmatching, ?_⟩
  rintro ⟨op, hop⟩
  rw [hmatching] at hop
  cases hop

end Rule

end SealedCustody
