import SealedCustody.Proofs.Criteria.Completion
import SealedCustody.Proofs.Criteria.Trichotomy

/-!
# Valid rules

The literal of a rule is looked at twice: once by itself, when the rule is validated, and again with every
value that it is compared with. Both times the same is asked of it (`Rule.Shaped`), which is why a rule is
valid exactly when it has an answer on every record in which its field is missing or a number
(`Rule.validate_iff_answers`). A rule that is not valid has none on any record that has the field.

Of a valid criteria only the rules that order can lack an answer, and only on a field that is no number.
Where they all have one, so has the criteria, and it is that of evaluation
(`Criteria.validate_exact`).
-/

namespace SealedCustody

open Json

namespace Json.Value

variable {v : Value}

theorem exists_number (h : v.isNumber = true) : ∃ n, v = .number n := by
  cases v with
  | number n => exact ⟨n, rfl⟩
  | _ => cases h

theorem exists_array (h : v.isArray = true) : ∃ items, v = .array items := by
  cases v with
  | array items => exact ⟨items, rfl⟩
  | _ => cases h

end Json.Value

/-- The field is missing, or it is a number. -/
def Record.Numeric (record : Record) (field : String) : Prop :=
  ∀ v, record.resolve field = some v → v.isNumber = true

variable {record : Record} {c : Criteria}

namespace Rule

variable {r : Rule} {actual : Value}

/-- A rule that asks for an order. -/
def Orders (r : Rule) : Prop := r.op = .greater ∨ r.op = .less

/-- The literal is one that the comparison can be made with. -/
def Shaped (r : Rule) : Prop :=
  match r.op with
  | .greater | .less => r.value.isNumber = true
  | .member => r.value.isArray = true
  | .equal => True

theorem validate_eq_ok_iff (h : r.field ≠ "") : r.validate = .ok () ↔ r.Shaped := by
  obtain ⟨field, op, value⟩ := r
  unfold validate Shaped
  rw [if_neg h]
  cases op with
  | equal => exact iff_of_true rfl trivial
  | member =>
    dsimp only
    split <;> simp [*]
  | _ =>
    dsimp only
    split <;> simp [*]

/-! ## Answers on a value -/

/-- Two numbers always have an order. -/
theorem exists_numericOrder (hactual : actual.isNumber = true) (hvalue : r.value.isNumber = true) :
    ∃ o, r.numericOrder actual = .ok o := by
  obtain ⟨field, op, value⟩ := r
  obtain ⟨x, rfl⟩ := Value.exists_number hactual
  obtain ⟨y, rfl⟩ := Value.exists_number hvalue
  exact ⟨x.order y, numericOrder_number op⟩

theorem numericOrder_of_not_number (h : r.value.isNumber ≠ true) (actual : Value) :
    r.numericOrder actual = .error (.notNumeric r.op r.field actual r.value) := by
  obtain ⟨field, op, value⟩ := r
  cases value with
  | number y => exact absurd rfl h
  | _ => cases actual <;> rfl

/-- With a literal of its shape a rule has an answer on every value, or on every number if it orders. -/
theorem Shaped.answers (h : r.Shaped) (hactual : r.Orders → actual.isNumber = true) :
    ∃ b, r.checkValue actual = .ok b := by
  unfold Shaped at h
  unfold checkValue
  cases hop : r.op with
  | equal => exact ⟨_, rfl⟩
  | greater =>
    rw [hop] at h
    obtain ⟨o, ho⟩ := exists_numericOrder (hactual (Or.inl hop)) h
    exact ⟨_, congrArg (Except.map _) ho⟩
  | less =>
    rw [hop] at h
    obtain ⟨o, ho⟩ := exists_numericOrder (hactual (Or.inr hop)) h
    exact ⟨_, congrArg (Except.map _) ho⟩
  | member =>
    rw [hop] at h
    obtain ⟨items, hitems⟩ := Value.exists_array h
    rw [hitems]
    exact ⟨_, rfl⟩

/-- With a literal of another shape it has an answer on no value. -/
theorem fails_of_not_shaped (h : ¬r.Shaped) (actual : Value) : ∃ e, r.checkValue actual = .error e := by
  unfold Shaped at h
  unfold checkValue
  cases hop : r.op with
  | equal =>
    rw [hop] at h
    exact absurd trivial h
  | greater =>
    rw [hop] at h
    exact ⟨_, congrArg (Except.map _) (numericOrder_of_not_number h actual)⟩
  | less =>
    rw [hop] at h
    exact ⟨_, congrArg (Except.map _) (numericOrder_of_not_number h actual)⟩
  | member =>
    rw [hop] at h
    cases hvalue : r.value with
    | array items =>
      rw [hvalue] at h
      exact absurd rfl h
    | _ => exact ⟨_, rfl⟩

/-! ## Answers on a record -/

/-- A valid rule has an answer on a record unless it orders and the field is there and no number. -/
theorem answers_of_validate (h : r.validate = .ok ())
    (hfield : r.Orders → record.Numeric r.field) : ∃ b, r.check record = .ok b := by
  have hshaped : r.Shaped := by
    refine (validate_eq_ok_iff fun hempty => ?_).1 h
    rw [validate, if_pos hempty] at h
    cases h
  unfold check
  cases hv : record.resolve r.field with
  | none => exact ⟨false, rfl⟩
  | some actual => exact hshaped.answers fun horders => hfield horders actual hv

/-- A rule is valid exactly when it has an answer on every record in which its field is missing or a
number. -/
theorem validate_iff_answers (hname : r.field ≠ "") :
    r.validate = .ok () ↔ ∀ record : Record, record.Numeric r.field → ∃ b, r.check record = .ok b := by
  constructor
  · exact fun h record hnumeric => answers_of_validate h fun _ => hnumeric
  · intro h
    rw [validate_eq_ok_iff hname]
    by_contra hshaped
    -- the field may be any number; the rule has no answer on it
    let record : Record := [(r.field, .number default)]
    have hfield : record.resolve r.field = some (.number default) := by
      unfold Record.resolve
      rw [Members.get?, if_pos rfl]
    have hnumeric : record.Numeric r.field := by
      intro v hv
      rw [hfield] at hv
      obtain rfl := Option.some.inj hv
      rfl
    obtain ⟨b, hb⟩ := h record hnumeric
    obtain ⟨e, he⟩ := fails_of_not_shaped hshaped (.number default)
    rw [check_of_resolve hfield, he] at hb
    cases hb

end Rule

namespace Criteria

/-- A criteria is valid exactly when all its rules are. -/
theorem validate_eq_ok_iff : c.validate = .ok () ↔ ∀ r ∈ c.all ++ c.any, r.validate = .ok () := by
  unfold validate
  generalize c.all ++ c.any = rs
  induction rs with
  | nil => exact iff_of_true rfl nofun
  | cons r rs ih =>
    rw [List.forall_mem_cons, ← ih]
    change (r.validate >>= fun _ => rs.forM Rule.validate) = .ok () ↔ _
    cases r.validate with
    | error e => exact iff_of_false nofun fun h => nomatch h.1
    | ok u => exact (and_iff_right rfl).symm

/-- If every rule has an answer, so has the criteria, and it is that of evaluation. -/
theorem check_eq_evaluate (h : ∀ r ∈ c.all ++ c.any, ∃ b, r.check record = .ok b) :
    c.check record = .ok (c.evaluate record) := by
  have hno : ∀ r ∈ c.all ++ c.any, r.check record ≠ .ok true → r.check record = .ok false := by
    intro r hr hne
    obtain ⟨b, hb⟩ := h r hr
    cases b with
    | true => exact absurd hb hne
    | false => exact hb
  cases hevaluate : c.evaluate record with
  | true => exact evaluate_eq_true_iff.1 hevaluate
  | false =>
    have hcheck : c.check record ≠ .ok true :=
      evaluate_eq_true_iff.ne.1 (hevaluate ▸ Bool.false_ne_true)
    rw [Ne, check_eq_ok_true_iff, not_and_or, not_or] at hcheck
    rw [check_eq_ok_false_iff]
    rcases hcheck with hall | ⟨hnonempty, hany⟩
    · obtain ⟨r, hne⟩ := not_forall.1 hall
      obtain ⟨hr, hne⟩ := Classical.not_imp.1 hne
      exact Or.inl ⟨r, hr, hno r (List.mem_append_left _ hr) hne⟩
    · exact Or.inr ⟨hnonempty, fun r hr =>
        hno r (List.mem_append_right _ hr) fun hyes => hany ⟨r, hr, hyes⟩⟩

/-- A rule is valid exactly when it has an answer on every record in which its field is missing or a
number. A criteria with valid rules has an answer on every record in which the fields that it orders by
are missing or numbers, and the answer is that of evaluation. -/
theorem validate_exact :
    (∀ r : Rule, r.field ≠ "" → (r.validate = .ok () ↔
      ∀ record : Record, record.Numeric r.field → ∃ b, r.check record = .ok b)) ∧
    ∀ (c : Criteria) (record : Record), c.validate = .ok () →
      (∀ r ∈ c.all ++ c.any, r.Orders → record.Numeric r.field) →
      c.check record = .ok (c.evaluate record) := by
  refine ⟨fun r hname => Rule.validate_iff_answers hname, fun c record hvalid hfields => ?_⟩
  exact check_eq_evaluate fun r hr =>
    Rule.answers_of_validate (validate_eq_ok_iff.1 hvalid r hr) (hfields r hr)

/-- An age between two integers, and a country, which is no number and not ordered by. -/
theorem validate_exact_of_age :
    let age : Value := .number (.double ⟨false, 0x12800000000000, -48⟩)
    let record : Record := [("age", age), ("country", .string "CA")]
    let adult : Rule := ⟨"age", .greater, .number (.natural 17)⟩
    let resident : Rule := ⟨"country", .member, .array [.string "US", .string "CA"]⟩
    let c : Criteria := ⟨none, [adult], [resident]⟩
    adult.field ≠ "" ∧ adult.validate = .ok () ∧ record.Numeric adult.field ∧
      (∃ b, adult.check record = .ok b) ∧ c.validate = .ok () ∧
      (∀ r ∈ c.all ++ c.any, r.Orders → record.Numeric r.field) ∧
      c.check record = .ok true := by
  intro age record adult resident c
  have hname : adult.field ≠ "" := by decide
  have hadult : adult.validate = .ok () := rfl
  have hvalid : c.validate = .ok () := rfl
  have hnumeric : record.Numeric adult.field := by
    intro v hv
    obtain rfl : age = v := Option.some.inj hv
    rfl
  have hfields : ∀ r ∈ c.all ++ c.any, r.Orders → record.Numeric r.field := by
    refine List.forall_mem_cons.2 ⟨fun _ => hnumeric, List.forall_mem_singleton.2 ?_⟩
    rintro (horders | horders) <;> cases horders
  have hevaluate : c.evaluate record = true := by decide +kernel
  obtain ⟨hrule, hcriteria⟩ := validate_exact
  exact ⟨hname, hadult, hnumeric, (hrule adult hname).1 hadult record hnumeric, hvalid, hfields,
    hevaluate ▸ hcriteria c record hvalid hfields⟩

end Criteria

end SealedCustody
