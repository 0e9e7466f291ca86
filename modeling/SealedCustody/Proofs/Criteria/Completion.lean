import SealedCustody.Criteria
import Mathlib.Data.List.Forall2

/-!
# Criteria as three-valued evaluation

A rule answers yes or no, or it has no answer on a record. A completion gives each place of the two
lists that has no answer one of its own, each place on its own account and equal rules apart. The
answer of a criteria is definite exactly when all completions agree on it (`Criteria.check_exact`).

## Shape of the proof

The answer of a completion rises with what is filled in, so all completions agree exactly when the two
extreme ones do. `Criteria.evaluate` is the lower of these by definition. `Criteria.check` says yes
exactly when the lower one does (`check_eq_ok_true_iff`), and no exactly when the upper one does
(`check_eq_ok_false_iff`).
-/

namespace SealedCustody.Criteria

variable {c c' : Criteria} {record : Record}

/-! ## Completions -/

/-- An answer may be completed to a truth value: itself, or any if it is a fault. -/
inductive Fits : Except CriteriaFault Bool → Bool → Prop where
  | answer (b : Bool) : Fits (.ok b) b
  | fault (e : CriteriaFault) (b : Bool) : Fits (.error e) b

/-- A truth value for each place of the two lists, that of the rule there if it has an answer. -/
structure Completion (c : Criteria) (record : Record) where
  all : List Bool
  any : List Bool
  fits_all : List.Forall₂ (fun r b => Fits (r.check record) b) c.all all
  fits_any : List.Forall₂ (fun r b => Fits (r.check record) b) c.any any

/-- What the criteria comes to: all of the one list, and some of the other unless it is empty. -/
def Completion.answer (k : Completion c record) : Bool :=
  k.all.all id && (k.any.isEmpty || k.any.any id)

/-- The answer of a rule, a fault taken for a given truth value. -/
def filled (fault : Bool) (record : Record) (r : Rule) : Bool :=
  match r.check record with
  | .ok b => b
  | .error _ => fault

theorem fits_filled (fault : Bool) (record : Record) (r : Rule) :
    Fits (r.check record) (filled fault record r) := by
  unfold filled
  cases r.check record with
  | ok b => exact .answer b
  | error e => exact .fault e fault

theorem filled_false_eq_true_iff {r : Rule} :
    filled false record r = true ↔ r.check record = .ok true := by
  unfold filled
  cases r.check record with
  | ok b => simp
  | error e => simp

theorem filled_true_eq_false_iff {r : Rule} :
    filled true record r = false ↔ r.check record = .ok false := by
  unfold filled
  cases r.check record with
  | ok b => simp
  | error e => simp

/-- Whatever an answer is completed to lies between the two extremes. -/
theorem Fits.between {r : Rule} {b : Bool} (h : Fits (r.check record) b) :
    (filled false record r = true → b = true) ∧ (b = true → filled true record r = true) := by
  unfold filled
  generalize r.check record = o at h
  cases h with
  | answer b => exact ⟨id, id⟩
  | fault e b => exact ⟨nofun, fun _ => rfl⟩

/-- The completion that fills every gap with the same truth value. -/
def Completion.fill (c : Criteria) (record : Record) (fault : Bool) : Completion c record where
  all := c.all.map (filled fault record)
  any := c.any.map (filled fault record)
  fits_all := List.forall₂_map_right_iff.2 (List.forall₂_same.2 fun r _ => fits_filled fault record r)
  fits_any := List.forall₂_map_right_iff.2 (List.forall₂_same.2 fun r _ => fits_filled fault record r)

/-! ## The extremes -/

theorem fill_answer (fault : Bool) : (Completion.fill c record fault).answer =
    (c.all.all (filled fault record) && (c.any.isEmpty || c.any.any (filled fault record))) := by
  simp [Completion.fill, Completion.answer, List.all_map, List.any_map]

/-- Evaluation fills every gap with a no. -/
theorem evaluate_eq_fill_answer (c : Criteria) (record : Record) :
    c.evaluate record = (Completion.fill c record false).answer := by
  rw [fill_answer]
  rfl

/-- More yeses in two lists of equal length never turn the conjunction to a no. -/
theorem all_mono {xs ys : List Bool} (h : List.Forall₂ (fun x y => x = true → y = true) xs ys)
    (hx : xs.all id = true) : ys.all id = true := by
  induction h with
  | nil => rfl
  | cons hxy _ ih =>
    simp only [List.all_cons, id, Bool.and_eq_true] at hx ⊢
    exact ⟨hxy hx.1, ih hx.2⟩

theorem any_mono {xs ys : List Bool} (h : List.Forall₂ (fun x y => x = true → y = true) xs ys)
    (hx : (xs.isEmpty || xs.any id) = true) : (ys.isEmpty || ys.any id) = true := by
  induction h with
  | nil => rfl
  | cons hxy rest ih =>
    simp only [List.isEmpty_cons, Bool.false_or, List.any_cons, id, Bool.or_eq_true] at hx ⊢
    rcases hx with hx | hx
    · exact Or.inl (hxy hx)
    · have htail := ih (by rw [hx, Bool.or_true])
      cases rest with
      | nil => simp at hx
      | cons => simpa using Or.inr htail

/-- Place by place, a completion lies above the lower extreme. -/
theorem Completion.answer_of_fill_false (k : Completion c record)
    (h : (fill c record false).answer = true) : k.answer = true := by
  unfold answer at h ⊢
  rw [Bool.and_eq_true] at h ⊢
  -- the lower extreme has a yes only where every completion has one
  have below : ∀ {rs : List Rule} {bs : List Bool},
      List.Forall₂ (fun r b => Fits (r.check record) b) rs bs →
        List.Forall₂ (fun x y => x = true → y = true) (rs.map (filled false record)) bs :=
    fun hfit => List.forall₂_map_left_iff.2 (hfit.imp fun _ _ hb => hb.between.1)
  exact ⟨all_mono (below k.fits_all) h.1, any_mono (below k.fits_any) h.2⟩

/-- Place by place, a completion lies below the upper extreme. -/
theorem Completion.fill_true_of_answer (k : Completion c record) (h : k.answer = true) :
    (fill c record true).answer = true := by
  unfold answer at h ⊢
  rw [Bool.and_eq_true] at h ⊢
  -- the upper extreme has a yes wherever some completion has one
  have above : ∀ {rs : List Rule} {bs : List Bool},
      List.Forall₂ (fun r b => Fits (r.check record) b) rs bs →
        List.Forall₂ (fun x y => x = true → y = true) bs (rs.map (filled true record)) :=
    fun hfit => List.forall₂_map_right_iff.2 (hfit.flip.imp fun _ _ hb => hb.between.2)
  exact ⟨all_mono (above k.fits_all) h.1, any_mono (above k.fits_any) h.2⟩

/-! ## What checking says -/

/-- A conjunction is a no exactly when some rule is one, whatever faults there are. -/
theorem conjunction_eq_ok_false_iff {pending : Option CriteriaFault} {rs : List Rule} :
    conjunction record pending rs = .ok false ↔ ∃ r ∈ rs, r.check record = .ok false := by
  induction rs generalizing pending with
  | nil => cases pending <;> simp [conjunction]
  | cons r rest ih =>
    rw [conjunction]
    cases hr : r.check record with
    | error e => simp [ih, hr]
    | ok b => cases b <;> simp [ih, hr]

/-- A conjunction is a yes exactly when every rule is one. -/
theorem conjunction_eq_ok_true_iff {pending : Option CriteriaFault} {rs : List Rule} :
    conjunction record pending rs = .ok true ↔
      pending = none ∧ ∀ r ∈ rs, r.check record = .ok true := by
  induction rs generalizing pending with
  | nil => cases pending <;> simp [conjunction]
  | cons r rest ih =>
    rw [conjunction]
    cases hr : r.check record with
    | error e => cases pending <;> simp [ih, hr]
    | ok b => cases b <;> simp [ih, hr]

/-- A disjunction is a yes exactly when some rule is one, whatever faults there are. -/
theorem disjunction_eq_ok_true_iff {pending : Option CriteriaFault} {rs : List Rule} :
    disjunction record pending rs = .ok true ↔ ∃ r ∈ rs, r.check record = .ok true := by
  induction rs generalizing pending with
  | nil => cases pending <;> simp [disjunction]
  | cons r rest ih =>
    rw [disjunction]
    cases hr : r.check record with
    | error e => simp [ih, hr]
    | ok b => cases b <;> simp [ih, hr]

/-- A disjunction is a no exactly when every rule is one. -/
theorem disjunction_eq_ok_false_iff {pending : Option CriteriaFault} {rs : List Rule} :
    disjunction record pending rs = .ok false ↔
      pending = none ∧ ∀ r ∈ rs, r.check record = .ok false := by
  induction rs generalizing pending with
  | nil => cases pending <;> simp [disjunction]
  | cons r rest ih =>
    rw [disjunction]
    cases hr : r.check record with
    | error e => cases pending <;> simp [ih, hr]
    | ok b => cases b <;> simp [ih, hr]

theorem checkAny_eq_ok_true_iff :
    c.checkAny record = .ok true ↔ c.any = [] ∨ ∃ r ∈ c.any, r.check record = .ok true := by
  unfold checkAny
  cases h : c.any with
  | nil => simp
  | cons r rest => simp [disjunction_eq_ok_true_iff]

theorem checkAny_eq_ok_false_iff :
    c.checkAny record = .ok false ↔ c.any ≠ [] ∧ ∀ r ∈ c.any, r.check record = .ok false := by
  unfold checkAny
  cases h : c.any with
  | nil => simp
  | cons r rest => simp [disjunction_eq_ok_false_iff]

/-- The answer is yes exactly when no completion of a gap is needed for it. -/
theorem check_eq_ok_true_iff :
    c.check record = .ok true ↔ (∀ r ∈ c.all, r.check record = .ok true) ∧
      (c.any = [] ∨ ∃ r ∈ c.any, r.check record = .ok true) := by
  have hall : conjunction record none c.all = .ok true ↔ ∀ r ∈ c.all, r.check record = .ok true := by
    rw [conjunction_eq_ok_true_iff, and_iff_right rfl]
  rw [← checkAny_eq_ok_true_iff, ← hall]
  unfold check
  cases conjunction record none c.all with
  | error e => cases c.checkAny record with
    | error e' => simp
    | ok b => cases b <;> simp
  | ok b => cases b <;> simp

/-- The answer is no exactly when no completion of a gap can change it. -/
theorem check_eq_ok_false_iff :
    c.check record = .ok false ↔ (∃ r ∈ c.all, r.check record = .ok false) ∨
      (c.any ≠ [] ∧ ∀ r ∈ c.any, r.check record = .ok false) := by
  have hall : conjunction record none c.all = .ok false ↔ ∃ r ∈ c.all, r.check record = .ok false :=
    conjunction_eq_ok_false_iff
  rw [← checkAny_eq_ok_false_iff, ← hall]
  unfold check
  cases conjunction record none c.all with
  | error e => cases c.checkAny record with
    | error e' => simp
    | ok b => cases b <;> simp
  | ok b => cases b <;> simp

/-- Checking says yes exactly when the lower extreme does. -/
theorem check_eq_ok_true_iff_fill :
    c.check record = .ok true ↔ (Completion.fill c record false).answer = true := by
  rw [check_eq_ok_true_iff, fill_answer, Bool.and_eq_true, Bool.or_eq_true, List.all_eq_true,
    List.any_eq_true, List.isEmpty_iff]
  simp only [filled_false_eq_true_iff]

/-- Checking says no exactly when the upper extreme does. -/
theorem check_eq_ok_false_iff_fill :
    c.check record = .ok false ↔ (Completion.fill c record true).answer = false := by
  rw [check_eq_ok_false_iff, fill_answer, Bool.and_eq_false_iff, Bool.or_eq_false_iff,
    List.all_eq_false, List.any_eq_false, List.isEmpty_eq_false_iff]
  simp only [Bool.not_eq_true, filled_true_eq_false_iff]

/-! ## Exactness -/

/-- Checking gives an answer exactly when every completion has that answer. -/
theorem check_eq_ok_iff (b : Bool) :
    c.check record = .ok b ↔ ∀ k : Completion c record, k.answer = b := by
  cases b with
  -- a yes is the answer of the lower extreme, a no that of the upper one
  | true =>
    rw [check_eq_ok_true_iff_fill]
    exact ⟨fun h k => k.answer_of_fill_false h, fun h => h _⟩
  | false =>
    rw [check_eq_ok_false_iff_fill]
    refine ⟨fun h k => ?_, fun h => h _⟩
    by_contra hk
    rw [Bool.not_eq_false] at hk
    rw [k.fill_true_of_answer hk] at h
    cases h

/-- Checking fails exactly when two completions differ. -/
theorem check_eq_error_iff :
    (∃ e, c.check record = .error e) ↔ ∃ k k' : Completion c record, k.answer ≠ k'.answer := by
  constructor
  · rintro ⟨e, he⟩
    refine ⟨.fill c record false, .fill c record true, fun hsame => ?_⟩
    -- If the extremes agreed, checking would give the answer that they share.
    cases hfill : (Completion.fill c record true).answer with
    | true =>
      have := check_eq_ok_true_iff_fill.2 (hsame.trans hfill)
      rw [he] at this
      cases this
    | false =>
      have := check_eq_ok_false_iff_fill.2 hfill
      rw [he] at this
      cases this
  · rintro ⟨k, k', hne⟩
    cases hcheck : c.check record with
    | error e => exact ⟨e, rfl⟩
    | ok b =>
      have hall := (check_eq_ok_iff b).1 hcheck
      exact absurd ((hall k).trans (hall k').symm) hne

/-! ## Order -/

/-- Rearranging the lists does not change when the answer is yes or no. -/
theorem check_eq_ok_iff_of_perm (hall : c.all.Perm c'.all) (hany : c.any.Perm c'.any) (b : Bool) :
    c.check record = .ok b ↔ c'.check record = .ok b := by
  have hempty : c.any = [] ↔ c'.any = [] := by
    rw [← List.length_eq_zero_iff, ← List.length_eq_zero_iff, hany.length_eq]
  cases b with
  | true => simp only [check_eq_ok_true_iff, hall.mem_iff, hany.mem_iff, hempty]
  | false => simp only [check_eq_ok_false_iff, hall.mem_iff, hany.mem_iff, ne_eq, hempty]

theorem check_eq_error_iff_ne_ok :
    (∃ e, c.check record = .error e) ↔ ∀ b, c.check record ≠ .ok b := by
  cases c.check record with
  | error e => simp
  | ok b => simp

/-- Evaluation says yes exactly when checking does. -/
theorem evaluate_eq_true_iff : c.evaluate record = true ↔ c.check record = .ok true := by
  rw [evaluate_eq_fill_answer, check_eq_ok_true_iff_fill]

/-- Checking is exact: it gives an answer exactly when every way of filling the gaps leads to that
answer, and fails exactly when two ways lead to different ones. Evaluation says yes exactly when
checking does. Neither depends on the order of the rules in either list. -/
theorem check_exact (c : Criteria) (record : Record) :
    (∀ b, c.check record = .ok b ↔ ∀ k : Completion c record, k.answer = b) ∧
    ((∃ e, c.check record = .error e) ↔ ∃ k k' : Completion c record, k.answer ≠ k'.answer) ∧
    (c.evaluate record = true ↔ c.check record = .ok true) ∧
    ∀ c' : Criteria, c.all.Perm c'.all → c.any.Perm c'.any →
      c.evaluate record = c'.evaluate record ∧
      (∀ b, c.check record = .ok b ↔ c'.check record = .ok b) ∧
      ((∃ e, c.check record = .error e) ↔ ∃ e, c'.check record = .error e) := by
  refine ⟨check_eq_ok_iff, check_eq_error_iff, evaluate_eq_true_iff, fun c' hall hany => ?_⟩
  have hok : ∀ b, c.check record = .ok b ↔ c'.check record = .ok b :=
    check_eq_ok_iff_of_perm hall hany
  refine ⟨?_, hok, ?_⟩
  · rw [Bool.eq_iff_iff, evaluate_eq_true_iff, evaluate_eq_true_iff, hok]
  · simp only [check_eq_error_iff_ne_ok, ne_eq, hok]

/-- A rule that has no answer on the record beside one that fails: the answer is no in either order. -/
theorem check_exact_of_swapped :
    let senior : Rule := ⟨"age", .greater, .number (.natural 65)⟩
    let unlicensed : Rule := ⟨"license", .equal, .bool false⟩
    let record : Record := [("age", .string "old"), ("license", .bool true)]
    let c : Criteria := ⟨none, [senior, unlicensed], []⟩
    let c' : Criteria := ⟨none, [unlicensed, senior], []⟩
    c.all.Perm c'.all ∧ c.any.Perm c'.any ∧ c.check record = .ok false ∧
      c'.check record = .ok false := by
  intro senior unlicensed record c c'
  have hall : c.all.Perm c'.all := .swap ..
  have hany : c.any.Perm c'.any := .nil
  have hc : c.check record = .ok false := by rfl
  exact ⟨hall, hany, hc, (((check_exact c record).2.2.2 c' hall hany).2.1 false).1 hc⟩

end SealedCustody.Criteria
