import SealedCustody.Proofs.Store.Accounts
import SealedCustody.Proofs.Store.Conduct

/-!
# A listing is the sorted set of what is selected

A filter with a field selects requests, and they are listed by the time of their creation and by id among
those of one time. Sorting alone would leave requests that compare equal in the order in which the table
was gone through. No two do: a request stands under its own id (`Store.Keyed`), so ids are not repeated
and the sorted list ascends strictly (`Store.Keyed.listed_mergeSort`). A strictly ascending list is
determined by its members (`Store.Listed.eq`), which makes the answer one of the stored records alone.
-/

namespace SealedCustody

open Lifecycle

/-! ## The order of a listing -/

/-- Earlier in time. -/
def Instant.Before (a b : Instant) : Prop :=
  a.seconds < b.seconds ∨ a.seconds = b.seconds ∧ a.nanos < b.nanos

/-- Created earlier, or at the same time under a lesser id. -/
def VerificationRequest.Precedes (a b : VerificationRequest) : Prop :=
  a.createdAt.Before b.createdAt ∨ a.createdAt = b.createdAt ∧ a.id < b.id

namespace Instant

variable {a b c : Instant}

theorem order_eq_lt_iff : a.order b = .lt ↔ a.Before b := by
  rw [order, Ordering.then_eq_lt, Int.compare_eq_lt, Int.compare_eq_eq, Nat.compare_eq_lt, Before]

theorem order_eq_gt_iff : a.order b = .gt ↔ b.Before a := by
  rw [order, Ordering.then_eq_gt, Int.compare_eq_gt, Int.compare_eq_eq, Nat.compare_eq_gt, Before,
    eq_comm (a := a.seconds)]

theorem order_eq_eq_iff : a.order b = .eq ↔ a = b := by
  rw [order, Ordering.then_eq_eq, Int.compare_eq_eq, Nat.compare_eq_eq, Instant.mk.injEq]

theorem Before.trans (hab : a.Before b) (hbc : b.Before c) : a.Before c := by
  unfold Before at *
  omega

theorem not_before_self (a : Instant) : ¬a.Before a := by
  unfold Before
  omega

theorem before_or_eq_or_before (a b : Instant) : a.Before b ∨ a = b ∨ b.Before a := by
  rw [← order_eq_lt_iff, ← order_eq_eq_iff, ← order_eq_gt_iff]
  cases a.order b <;> simp

end Instant

namespace VerificationRequest

variable {a b c : VerificationRequest}

theorem Precedes.trans (hab : a.Precedes b) (hbc : b.Precedes c) : a.Precedes c := by
  rcases hab with hab | ⟨hab, hid⟩ <;> rcases hbc with hbc | ⟨hbc, hid'⟩
  · exact Or.inl (hab.trans hbc)
  · exact Or.inl (hbc ▸ hab)
  · exact Or.inl (hab ▸ hbc)
  · exact Or.inr ⟨hab.trans hbc, String.lt_trans hid hid'⟩

theorem not_precedes_self (a : VerificationRequest) : ¬a.Precedes a := by
  rintro (h | ⟨-, h⟩)
  · exact Instant.not_before_self _ h
  · exact String.lt_irrefl _ h

/-- Of two requests with different ids one precedes the other. -/
theorem precedes_of_not (hid : a.id ≠ b.id) (h : ¬b.Precedes a) : a.Precedes b := by
  rcases Instant.before_or_eq_or_before a.createdAt b.createdAt with hlt | heq | hgt
  · exact Or.inl hlt
  · refine Or.inr ⟨heq, Decidable.byContradiction fun hnot => ?_⟩
    refine hid (String.le_antisymm ?_ (String.not_lt.1 hnot))
    exact String.not_lt.1 fun hlt => h (Or.inr ⟨heq.symm, hlt⟩)
  · exact absurd (Or.inl hgt) h

end VerificationRequest

/-- Every field that is set is that of the request. -/
def RequestFilter.Selects (f : RequestFilter) (r : VerificationRequest) : Prop :=
  (∀ id, f.id = some id → r.id = id) ∧ (∀ id, f.subjectId = some id → r.subjectId = id) ∧
    ∀ id, f.requesterId = some id → r.requesterId = id

theorem RequestFilter.agrees_iff {wanted : Option String} {found : String} :
    agrees wanted found = true ↔ ∀ id, wanted = some id → found = id := by
  cases wanted with
  | none => exact iff_of_true rfl nofun
  | some id =>
    rw [agrees, Option.all_some, beq_iff_eq]
    exact ⟨fun h id' h' => h.symm.trans (Option.some.inj h'), fun h => (h id rfl).symm⟩

theorem RequestFilter.matches_iff {f : RequestFilter} {r : VerificationRequest} :
    f.matches r = true ↔ f.Selects r := by
  rw [«matches», Bool.and_eq_true, Bool.and_eq_true, agrees_iff, agrees_iff, agrees_iff, and_assoc,
    Selects]

theorem RequestFilter.isEmpty_iff {f : RequestFilter} : f.isEmpty = true ↔ f = ⟨none, none, none⟩ := by
  obtain ⟨id, subject, requester⟩ := f
  cases id <;> cases subject <;> cases requester <;> simp [isEmpty]

namespace Store

/-- A request goes before another in a sorted listing unless it has to come after it. -/
theorem isBefore_iff {a b : VerificationRequest} : isBefore a b = true ↔ ¬b.Precedes a := by
  unfold isBefore VerificationRequest.Precedes
  split
  · next h =>
    have hlt := Instant.order_eq_lt_iff.1 h
    refine iff_of_true rfl ?_
    rintro (hgt | ⟨heq, -⟩)
    · exact Instant.not_before_self _ (hlt.trans hgt)
    · exact Instant.not_before_self _ (heq ▸ hlt)
  · next h => exact iff_of_false Bool.false_ne_true (not_not.2 (Or.inl (Instant.order_eq_gt_iff.1 h)))
  · next h =>
    rw [Instant.order_eq_eq_iff.1 h]
    simp [Instant.not_before_self]

theorem isBefore_trans (a b c : VerificationRequest) (hab : isBefore a b = true)
    (hbc : isBefore b c = true) : isBefore a c = true := by
  rw [isBefore_iff] at *
  intro hca
  by_cases hid : b.id = c.id
  · -- under one id, the one of b and c that was created first precedes as the other does
    rcases Instant.before_or_eq_or_before b.createdAt c.createdAt with hlt | heq | hgt
    · exact hab (VerificationRequest.Precedes.trans (Or.inl hlt) hca)
    · refine hab ?_
      unfold VerificationRequest.Precedes at hca ⊢
      rwa [heq, hid]
    · exact hbc (Or.inl hgt)
  · exact hab ((VerificationRequest.precedes_of_not hid hbc).trans hca)

theorem isBefore_total (a b : VerificationRequest) : (isBefore a b || isBefore b a) = true := by
  rw [Bool.or_eq_true, isBefore_iff, isBefore_iff, ← not_and_or]
  exact fun h => VerificationRequest.not_precedes_self a (h.2.trans h.1)

/-! ## What a listing is -/

/-- The listing of what a filter selects of the stored requests: each of them once and no other, by time
and id. -/
structure Listed (s : Store) (f : RequestFilter) (rs : List VerificationRequest) : Prop where
  ordered : rs.Pairwise VerificationRequest.Precedes
  once : rs.Nodup
  mem_iff : ∀ r, r ∈ rs ↔ r ∈ s.requests.values ∧ f.Selects r

variable {s s' : Store} {f : RequestFilter} {rs rs' : List VerificationRequest}

/-- There is one listing of given records. -/
theorem Listed.eq (h : s.Listed f rs) (h' : s'.Listed f rs')
    (same : ∀ r, r ∈ s'.requests.values ↔ r ∈ s.requests.values) : rs' = rs := by
  refine List.Perm.eq_of_pairwise (fun a b _ _ hab hba => ?_) h'.ordered h.ordered ?_
  · exact absurd (hab.trans hba) (VerificationRequest.not_precedes_self a)
  · rw [List.perm_ext_iff_of_nodup h'.once h.once]
    intro r
    rw [h'.mem_iff, h.mem_iff, same]

/-- The ids of the stored requests are not repeated. -/
theorem Keyed.nodup_ids (h : s.Keyed) : (s.requests.values.map (·.id)).Nodup := by
  have hids : s.requests.values.map (·.id) = s.requests.entries.map Prod.fst := by
    rw [Table.values, List.map_map]
    exact List.map_congr_left fun e he => h e.1 e.2 (Table.mem_entries.1 he)
  rw [hids]
  exact s.requests.nodup

/-- Going through the requests in any order, filtering and sorting lists them. -/
theorem Keyed.listed_mergeSort (h : s.Keyed) {order : List VerificationRequest}
    (horder : order.Perm s.requests.values) :
    s.Listed f ((order.filter f.matches).mergeSort isBefore) := by
  have hperm := List.mergeSort_perm (order.filter f.matches) isBefore
  have hids : (order.filter f.matches).Pairwise fun a b => a.id ≠ b.id := by
    have hnodup : (order.map (·.id)).Nodup := (horder.map _).nodup_iff.2 h.nodup_ids
    exact (List.pairwise_map.1 hnodup).filter _
  have hdistinct : ((order.filter f.matches).mergeSort isBefore).Pairwise fun a b => a.id ≠ b.id :=
    (hperm.pairwise_iff fun hne => hne.symm).2 hids
  have hsorted := List.pairwise_mergeSort isBefore_trans isBefore_total (order.filter f.matches)
  refine ⟨?_, ?_, fun r => ?_⟩
  · exact hdistinct.imp₂ (fun a b hne hbefore =>
      VerificationRequest.precedes_of_not hne (isBefore_iff.1 hbefore)) hsorted
  · exact hdistinct.imp fun hne heq => hne (congrArg _ heq)
  · rw [hperm.mem_iff, List.mem_filter, horder.mem_iff, RequestFilter.matches_iff]

theorem get_of_empty (s : Store) (h : f = ⟨none, none, none⟩) :
    s.get f = .error (.storage "request filter has no fields set") :=
  if_pos (RequestFilter.isEmpty_iff.2 h)

theorem get_of_ne (s : Store) (h : f ≠ ⟨none, none, none⟩) :
    s.get f = .ok ((s.requests.values.filter f.matches).mergeSort isBefore) :=
  if_neg fun hempty => h (RequestFilter.isEmpty_iff.1 hempty)

/-! ## Any operations -/

/-- An operation of a client: an access to the requests at some time, or an upsert of an account. -/
inductive Operation where
  | access (now : Instant) (a : Access)
  | upsert (u : Upsert)

/-- The store after an operation. -/
def operate (s : Store) : Operation → Store
  | .access now a => (s.perform now a).2
  | .upsert u => (s.upsert u).2

/-- The store that operations lead to, one after another, from an empty one. -/
def reached (ops : List Operation) : Store := ops.foldl operate empty

theorem requests_upsert (s : Store) (u : Upsert) : (s.upsert u).2.requests = s.requests := by
  cases u with
  | user fresh u =>
    rw [upsert, Prod.map_snd, upsertUser]
    split <;> rfl
  | provider fresh p =>
    rw [upsert, Prod.map_snd, upsertProvider]
    split <;> rfl

theorem Keyed.operate (h : s.Keyed) (op : Operation) : (s.operate op).Keyed := by
  cases op with
  | access now a => exact h.perform now a
  | upsert u =>
    unfold Keyed Store.operate
    rw [requests_upsert]
    exact h

theorem keyed_reached (ops : List Operation) : (reached ops).Keyed := by
  have hfold : ∀ s : Store, s.Keyed → (ops.foldl Store.operate s).Keyed := by
    induction ops with
    | nil => exact fun s h => h
    | cons op rest ih => exact fun s h => ih _ (h.operate op)
  exact hfold _ keyed_empty

/-- **A listing is the sorted set of what is selected.** Whatever operations led to a store, to list by a
filter without a field is an error. By any other filter the stored requests that have every field that is
set are listed, each once and no other, each created before the next or at the same time under a lesser
id. In whatever order the table is gone through, and whatever other operations led to the same records,
the answer is this one. -/
theorem listing_exact (ops : List Operation) (f : RequestFilter) :
    let s := reached ops
    (f = ⟨none, none, none⟩ → s.get f = .error (.storage "request filter has no fields set")) ∧
      (f ≠ ⟨none, none, none⟩ → ∃ rs, s.get f = .ok rs ∧ s.Listed f rs ∧
        (∀ order : List VerificationRequest, order.Perm s.requests.values →
          (order.filter f.matches).mergeSort isBefore = rs) ∧
        ∀ ops', (∀ r, r ∈ (reached ops').requests.values ↔ r ∈ s.requests.values) →
          (reached ops').get f = .ok rs) := by
  intro s
  have hs : s.Keyed := keyed_reached ops
  refine ⟨s.get_of_empty, fun hf => ⟨_, s.get_of_ne hf, hs.listed_mergeSort (.refl _), ?_, ?_⟩⟩
  · intro order horder
    exact (hs.listed_mergeSort (.refl _)).eq (hs.listed_mergeSort horder) fun _ => Iff.rfl
  · intro ops' same
    have hs' : (reached ops').Keyed := keyed_reached ops'
    rw [get_of_ne _ hf]
    exact congrArg Except.ok ((hs.listed_mergeSort (.refl _)).eq (hs'.listed_mergeSort (.refl _)) same)

end Store

end SealedCustody
