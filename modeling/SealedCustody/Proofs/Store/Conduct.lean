import SealedCustody.Proofs.Store.History

/-!
# Requests under whatever clients write

A client may present any record to be stored, and any status and revision to be compared. What becomes of
the requests follows from what one access does: it leaves the store as it was, or moves one request on
along `VerificationRequest.Evolves` and keeps it under its own id. So over any run of accesses the
requests obey the lifecycle (`lifecycle_obeyed`), without anything known of those who make them.
-/

namespace SealedCustody

open Lifecycle

/-! ## Versions -/

namespace VerificationRequest.Evolves

variable {old new : VerificationRequest}

theorem requesterId (h : old.Evolves new) : new.requesterId = old.requesterId := by
  rcases h with rfl | ⟨-, hrequester, -, -⟩
  · rfl
  · exact hrequester

theorem subjectId (h : old.Evolves new) : new.subjectId = old.subjectId := by
  rcases h with rfl | ⟨-, -, hsubject, -⟩
  · rfl
  · exact hsubject

/-- The status stays or moves along the transition table. -/
theorem status (h : old.Evolves new) :
    new.status = old.status ∨ old.status.canBecome new.status = true := by
  rcases h with rfl | ⟨hpending, -, -, -⟩
  · exact Or.inl rfl
  · by_cases hstays : new.status = .pending
    · exact Or.inl (hstays.trans hpending.symm)
    · exact Or.inr ((Store.canBecome_iff _ _).2 ⟨hpending, hstays⟩)

/-- A terminal record stays what it is. -/
theorem eq_of_isTerminal (h : old.Evolves new) (hterminal : old.status.isTerminal = true) :
    new = old := by
  refine (h.eq_of_ne_pending fun hpending => ?_).symm
  rw [hpending] at hterminal
  cases hterminal

end VerificationRequest.Evolves

namespace Store

variable {s : Store} {now : Instant} {a : Access} {reply : Reply} {e : Error}

/-! ## One access -/

/-- An access that is replied to is a visit to the store. -/
theorem served_perform (h : (s.perform now a).1 = some reply) :
    Visit.Served ⟨a, reply, s, (s.perform now a).2⟩ :=
  .store (Prod.ext h rfl)

/-- Only what is asked of the network gets no reply from the store. -/
theorem perform_eq_of_none (h : (s.perform now a).1 = none) : (s.perform now a).2 = s := by
  cases a with
  | dispatch r => rfl
  | _ => cases h

theorem later_perform (s : Store) (now : Instant) (a : Access) : s.Later (s.perform now a).2 := by
  cases hreply : (s.perform now a).1 with
  | none =>
    rw [perform_eq_of_none hreply]
    exact .refl s
  | some reply => exact (served_perform hreply).later

theorem Keyed.perform (h : s.Keyed) (now : Instant) (a : Access) : (s.perform now a).2.Keyed := by
  cases hreply : (s.perform now a).1 with
  | none =>
    rw [perform_eq_of_none hreply]
    exact h
  | some reply => exact (served_perform hreply).keyed h

/-- An access that fails leaves the store as it was. -/
theorem perform_eq_of_fail (h : (s.perform now a).1 = some (a.fail e)) : (s.perform now a).2 = s := by
  refine (served_perform h).unchanged (Visit.written?_eq_none fun r hr => ?_)
  have hfail : a.fail e = .request (.ok r) := hr
  cases a with
  | _ => cases hfail

/-! ## Any accesses -/

/-- The store once accesses were made one after another, each at some time. -/
def after (s : Store) (accesses : List (Instant × Access)) : Store :=
  accesses.foldl (fun s (now, a) => (s.perform now a).2) s

theorem later_after (s : Store) (accesses : List (Instant × Access)) : s.Later (s.after accesses) := by
  induction accesses generalizing s with
  | nil => exact .refl s
  | cons access rest ih => exact (later_perform s access.1 access.2).trans (ih _)

theorem Keyed.after (h : s.Keyed) (accesses : List (Instant × Access)) : (s.after accesses).Keyed := by
  induction accesses generalizing s with
  | nil => exact h
  | cons access rest ih => exact ih (h.perform access.1 access.2)

/-- Whatever accesses clients make to a store, each of its requests stands under its own id; one more
access leaves every status as it is or moves it along the transition table, and leaves the store as it is
if it fails; and whatever accesses follow, a request keeps its requester and its subject, and once it is
decided it stays what it is. -/
theorem lifecycle_obeyed (past more : List (Instant × Access)) (now : Instant) (a : Access) :
    let s := empty.after past
    s.Keyed ∧
      (∀ e, (s.perform now a).1 = some (a.fail e) → (s.perform now a).2 = s) ∧
      ∀ id r, s.requests.get? id = some r →
        (∃ r', (s.perform now a).2.requests.get? id = some r' ∧
          (r'.status = r.status ∨ r.status.canBecome r'.status = true)) ∧
        ∃ r', (s.after more).requests.get? id = some r' ∧ r'.requesterId = r.requesterId ∧
          r'.subjectId = r.subjectId ∧ (r.status.isTerminal = true → r' = r) := by
  intro s
  refine ⟨keyed_empty.after past, fun e => perform_eq_of_fail, fun id r hr => ⟨?_, ?_⟩⟩
  · obtain ⟨r', hr', hevolves⟩ := later_perform s now a id r hr
    exact ⟨r', hr', hevolves.status⟩
  · obtain ⟨r', hr', hevolves⟩ := later_after s more id r hr
    exact ⟨r', hr', hevolves.requesterId, hevolves.subjectId, hevolves.eq_of_isTerminal⟩

end Store

end SealedCustody
