import SealedCustody.Proofs.Criteria.Completion
import SealedCustody.Proofs.Criteria.Paths
import SealedCustody.Proofs.Custody.Answers

/-!
# What a verdict reveals

A rule looks at no more than two keys of a record: the one that is its whole field and the one that is the
part of the field before the first dot (`Rule.Names`). Records that are the same there are the same to the
rule, however they differ elsewhere: it finds the same value (`Record.resolve_congr`) and has the same
answer or the same fault, with the same values in its text. So nothing that a criteria or a verdict says
depends on any key that no rule names (`Criteria.reveals_named_only`).
-/

namespace SealedCustody

open Json

/-- A key that a rule names: its whole field, or what comes before the first dot of it. -/
inductive Rule.Names (r : Rule) : String → Prop
  | whole : Names r r.field
  | first {key rest : String} (hfield : r.field = key ++ "." ++ rest) (hkey : '.' ∉ key.toList) :
      Names r key

variable {r₁ r₂ : Record} {c : Criteria}

/-- What a field leads to hangs on the values of the keys that it names. -/
theorem Record.resolve_congr {r : Rule} (h : ∀ key, r.Names key → r₁.get? key = r₂.get? key) :
    r₁.resolve r.field = r₂.resolve r.field := by
  unfold resolve
  rw [h r.field .whole]
  cases r₂.get? r.field with
  | some v => rfl
  | none =>
    by_cases hdot : '.' ∈ r.field.toList
    · obtain ⟨key, rest, hfield, hkey⟩ := Text.exists_first hdot
      have hparts : Text.split '.' r.field = key :: Text.split '.' rest := by
        rw [hfield, Text.split_cons hkey]
      rw [hparts, walk_cons, walk_cons, h key (.first hfield hkey)]
    · rw [Text.split_eq_singleton hdot, walk_singleton, walk_singleton, h r.field .whole]

theorem Rule.check_congr {r : Rule} (h : ∀ key, r.Names key → r₁.get? key = r₂.get? key) :
    r.check r₁ = r.check r₂ := by
  unfold check
  rw [Record.resolve_congr h]

namespace Criteria

/-- The records have the same value, or both none, at every key that some rule names. -/
def Alike (c : Criteria) (r₁ r₂ : Record) : Prop :=
  ∀ r ∈ c.all ++ c.any, ∀ key, r.Names key → r₁.get? key = r₂.get? key

theorem conjunction_congr {rs : List Rule} (h : ∀ r ∈ rs, r.check r₁ = r.check r₂)
    (pending : Option CriteriaFault) : conjunction r₁ pending rs = conjunction r₂ pending rs := by
  induction rs generalizing pending with
  | nil => rfl
  | cons r rs ih =>
    obtain ⟨hr, hrs⟩ := List.forall_mem_cons.1 h
    rw [conjunction, conjunction, hr]
    simp only [ih hrs]

theorem disjunction_congr {rs : List Rule} (h : ∀ r ∈ rs, r.check r₁ = r.check r₂)
    (pending : Option CriteriaFault) : disjunction r₁ pending rs = disjunction r₂ pending rs := by
  induction rs generalizing pending with
  | nil => rfl
  | cons r rs ih =>
    obtain ⟨hr, hrs⟩ := List.forall_mem_cons.1 h
    rw [disjunction, disjunction, hr]
    simp only [ih hrs]

theorem check_congr (h : ∀ r ∈ c.all ++ c.any, r.check r₁ = r.check r₂) :
    c.check r₁ = c.check r₂ := by
  obtain ⟨hall, hany⟩ := List.forall_mem_append.1 h
  unfold check checkAny
  rw [conjunction_congr hall, disjunction_congr hany]

theorem evaluate_congr (h : ∀ r ∈ c.all ++ c.any, r.check r₁ = r.check r₂) :
    c.evaluate r₁ = c.evaluate r₂ := by
  rw [Bool.eq_iff_iff, evaluate_eq_true_iff, evaluate_eq_true_iff, check_congr h]

/-- Two records that are alike in what a criteria names are the same to it: in evaluation, in the answer
or the fault of checking, and in the verdict when they are taken out of custody. -/
theorem reveals_named_only (c : Criteria) (r₁ r₂ : Record) (h : c.Alike r₁ r₂) :
    c.evaluate r₁ = c.evaluate r₂ ∧ c.check r₁ = c.check r₂ ∧
      ∀ k₁ k₂ : CustodyRecord, k₁.open = .ok r₁ → k₂.open = .ok r₂ → k₁.verdict c = k₂.verdict c := by
  have hrules : ∀ r ∈ c.all ++ c.any, r.check r₁ = r.check r₂ := fun r hr => Rule.check_congr (h r hr)
  refine ⟨evaluate_congr hrules, check_congr hrules, fun k₁ k₂ h₁ h₂ => ?_⟩
  rw [CustodyRecord.verdict, CustodyRecord.verdict, h₁, h₂]
  dsimp only
  rw [evaluate_congr hrules]

/-- Records with the same unusable year of birth and different numbers beside it: the fault of both shows
the year, and both verdicts are the same. -/
theorem reveals_named_only_of_birth :
    let born : Value := .object [("year", .string "unknown")]
    let r₁ : Record := [("DOB", born), ("ssn", .number (.natural 1))]
    let r₂ : Record := [("DOB", born), ("ssn", .number (.natural 2)), ("zip", .string "33401")]
    let limit : Value := .number (.natural 2008)
    let c : Criteria := ⟨none, [⟨"DOB.year", .less, limit⟩], []⟩
    c.Alike r₁ r₂ ∧
      c.check r₁ = .error (.notNumeric .less "DOB.year" (.string "unknown") limit) ∧
      c.check r₂ = .error (.notNumeric .less "DOB.year" (.string "unknown") limit) ∧
      ∃ k₁ k₂ : CustodyRecord, k₁.open = .ok r₁ ∧ k₂.open = .ok r₂ ∧
        k₁.verdict c = .ineligible ∧ k₂.verdict c = .ineligible := by
  intro born r₁ r₂ limit c
  have halike : c.Alike r₁ r₂ := by
    intro r hr named hnamed
    obtain rfl := List.mem_singleton.1 hr
    cases hnamed with
    | whole => rfl
    | first hfield hkey =>
      have hparts : Text.split '.' "DOB.year" = named :: _ := hfield ▸ Text.split_cons hkey _
      have hdob : Text.split '.' "DOB.year" = ["DOB", "year"] := by decide
      obtain rfl : "DOB" = named := (List.cons.inj (hdob.symm.trans hparts)).1
      rfl
  have hcheck : c.check r₁ = .error (.notNumeric .less "DOB.year" (.string "unknown") limit) := by cbv
  have hborn : born.Legible (depthLimit - 1) :=
    .object (List.pairwise_singleton _ _) (List.forall_mem_singleton.2 (.string "unknown"))
  have h₁ : (Value.object r₁).Legible depthLimit := by
    refine .object (by decide) (List.forall_mem_cons.2 ⟨hborn, List.forall_mem_singleton.2 ?_⟩)
    exact .natural 1
  have h₂ : (Value.object r₂).Legible depthLimit := by
    refine .object (by decide) (List.forall_mem_cons.2 ⟨hborn, List.forall_mem_cons.2 ⟨?_, ?_⟩⟩)
    · exact .natural 2
    · exact List.forall_mem_singleton.2 (.string "33401")
  let key : EnvelopeKey := ⟨List.replicate EnvelopeKey.size 0, rfl⟩
  let nonce : List UInt8 := List.replicate Envelope.nonceSize 0
  have hopen₁ : (CustodyRecord.ofRecord "u1" r₁ key nonce).open = .ok r₁ :=
    CustodyRecord.open_ofRecord "u1" key h₁ rfl
  have hopen₂ : (CustodyRecord.ofRecord "u2" r₂ key nonce).open = .ok r₂ :=
    CustodyRecord.open_ofRecord "u2" key h₂ rfl
  have hverdict : (CustodyRecord.ofRecord "u1" r₁ key nonce).verdict c = .ineligible := by
    have hevaluate : c.evaluate r₁ = false := by cbv
    rw [CustodyRecord.verdict, hopen₁]
    dsimp only
    rw [hevaluate]
    rfl
  obtain ⟨-, hsame, hverdicts⟩ := reveals_named_only c r₁ r₂ halike
  exact ⟨halike, hcheck, hsame ▸ hcheck, _, _, hopen₁, hopen₂, hverdict,
    hverdicts _ _ hopen₁ hopen₂ ▸ hverdict⟩

end Criteria

end SealedCustody
