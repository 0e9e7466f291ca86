import SealedCustody.Proofs.Store.History
import Mathlib.Data.List.Nodup

/-!
# No update of a request is lost

Two accesses write to a request that is already stored: replacing its record, and moving its status.
Each presents the revision that its client read. `Store.no_update_lost` follows all of them over a
history: the revisions that they present and store count up by one from that of the creation, so no two
of them present the same revision, each of them finds the very record that its client may have read at
the presented revision, and the store holds the record that it returns. Nothing is assumed about the
clients, who may present any record and any revision.

A write that would leave no next revision fails, so the count never wraps.
-/

namespace SealedCustody

open Lifecycle

namespace Store

/-! ## Accesses in sequence -/

/-- The visits that come of accesses made one after another, each at some time. -/
def visits (s : Store) : List (Instant × Access) → List Visit
  | [] => []
  | (now, a) :: rest =>
    match s.perform now a with
    | (some reply, s') => ⟨a, reply, s, s'⟩ :: s'.visits rest
    | (none, _) => s.visits rest

/-- Accesses in sequence make a history. -/
theorem exists_history_visits (s : Store) (accesses : List (Instant × Access)) :
    ∃ s', History s (s.visits accesses) s' := by
  induction accesses generalizing s with
  | nil => exact ⟨s, .nil s⟩
  | cons access rest ih =>
    obtain ⟨now, a⟩ := access
    cases hp : s.perform now a with
    | mk reply s₁ =>
      cases reply with
      | none =>
        obtain ⟨s', h⟩ := ih s
        exact ⟨s', by rw [visits, hp]; exact h⟩
      | some reply =>
        obtain ⟨s', h⟩ := ih s₁
        refine ⟨s', ?_⟩
        rw [visits, hp]
        exact History.cons (v := ⟨a, reply, s, s₁⟩) (.store hp) h

/-! ## Writes to one request -/

/-- A write to a request that is already stored: the revision that was presented, and the record
that was stored. -/
structure Rewrite where
  base : UInt64
  record : VerificationRequest

/-- The write to a request under an id that a visit carried out, if it did. -/
def Visit.rewrite? (id : String) (v : Visit) : Option Rewrite :=
  match v.access, v.written? with
  | .update r, some r' => if r.id = id then some ⟨r.revision, r'⟩ else none
  | .compareAndSet k _ revision _, some r' => if k = id then some ⟨revision, r'⟩ else none
  | _, _ => none

theorem Visit.rewrite?_of_written?_eq_none {id : String} {v : Visit} (h : v.written? = none) :
    v.rewrite? id = none := by
  unfold rewrite?
  rw [h]
  split <;> first | rfl | (rename_i hr; cases hr)

/-- A write replies with the record that it stores. -/
theorem Visit.reply_of_rewrite? {id : String} {v : Visit} {w : Rewrite} (h : v.rewrite? id = some w) :
    v.reply = .request (.ok w.record) := by
  refine reply_of_written? ?_
  unfold rewrite? at h
  split at h
  · rename_i hwritten
    split at h
    · cases h
      exact hwritten
    · cases h
  · rename_i hwritten
    split at h
    · cases h
      exact hwritten
    · cases h
  · cases h

/-- A visit leaves a stored request as it was, or writes to it on its present revision. -/
theorem Visit.Served.rewrite_or_same {v : Visit} (h : v.Served) {id : String}
    {stored : VerificationRequest} (found : v.before.requests.get? id = some stored) :
    (v.rewrite? id = none ∧ v.after.requests.get? id = some stored) ∨
      ∃ r, v.rewrite? id = some ⟨stored.revision, r⟩ ∧
        r.revision.toNat = stored.revision.toNat + 1 ∧ v.after.requests.get? id = some r := by
  rcases h.writes_or_unchanged with ⟨r, hr, hw⟩ | ⟨hnone, hsame⟩
  · obtain ⟨access, reply, before, after⟩ := v
    dsimp only at hw found ⊢
    cases hw with
    | create free =>
      refine Or.inl ⟨rfl, ?_⟩
      -- A creation takes a free id, so it is not one of this request.
      have hne : r.id ≠ id := by
        rintro rfl
        rw [free] at found
        cases found
      rw [get?_put, if_neg hne, found]
    | @update stored' r found' pending requester subject current room =>
      by_cases hid : r.id = id
      · subst hid
        rw [found'] at found
        cases found
        refine Or.inr ⟨{ r with revision := stored.revision + 1 }, ?_, ?_,
          by rw [get?_put, if_pos rfl]⟩
        · simp only [rewrite?, hr, if_pos, current]
        · exact VerificationRequest.toNat_revision_succ room
      · refine Or.inl ⟨by simp only [rewrite?, hr, if_neg hid], ?_⟩
        rw [get?_put, if_neg hid, found]
    | @compareAndSet k stored' next now found' pending final room =>
      by_cases hid : k = id
      · subst hid
        rw [found'] at found
        cases found
        refine Or.inr
          ⟨{ stored with status := next, updatedAt := now, revision := stored.revision + 1 },
          ?_, ?_, by rw [get?_put, if_pos rfl]⟩
        · simp only [rewrite?, hr, if_pos]
        · exact VerificationRequest.toNat_revision_succ room
      · refine Or.inl ⟨by simp only [rewrite?, hr, if_neg hid], ?_⟩
        rw [get?_put, if_neg hid, found]
  · exact Or.inl ⟨Visit.rewrite?_of_written?_eq_none hnone, by rw [hsame, found]⟩

/-- The writes to a stored request present and store consecutive revisions. -/
theorem History.rewrites {s s' : Store} {vs : List Visit} (h : History s vs s') {id : String}
    {stored : VerificationRequest} (found : s.requests.get? id = some stored) :
    let ws := vs.filterMap (Visit.rewrite? id)
    ws.map (·.base.toNat) = List.range' stored.revision.toNat ws.length ∧
      ws.map (·.record.revision.toNat) = List.range' (stored.revision.toNat + 1) ws.length := by
  induction h generalizing stored with
  | nil => exact ⟨rfl, rfl⟩
  | cons served rest ih =>
    rcases served.rewrite_or_same found with ⟨hnone, hafter⟩ | ⟨r, hsome, hrev, hafter⟩
    · rw [List.filterMap_cons_none hnone]
      exact ih hafter
    · obtain ⟨hbases, hrevisions⟩ := ih hafter
      rw [hrev] at hbases hrevisions
      rw [List.filterMap_cons_some hsome]
      refine ⟨?_, ?_⟩
      · rw [List.map_cons, List.length_cons, List.range'_succ, hbases]
      · rw [List.map_cons, List.length_cons, List.range'_succ, hrevisions, hrev]

/-! ## What a write finds -/

theorem History.cons_inv {s s' : Store} {v : Visit} {vs : List Visit}
    (h : History s (v :: vs) s') : s = v.before ∧ v.Served ∧ History v.after vs s' := by
  cases h with
  | cons served rest => exact ⟨rfl, served, rest⟩

/-- A visit of a history finds the store later than the start of the history. -/
theorem History.later_before {s s' : Store} {us vs : List Visit} {v : Visit}
    (h : History s (us ++ v :: vs) s') : v.Served ∧ s.Later v.before := by
  induction us generalizing s with
  | nil =>
    obtain ⟨rfl, served, -⟩ := h.cons_inv
    exact ⟨served, .refl _⟩
  | cons u us ih =>
    obtain ⟨rfl, served, rest⟩ := h.cons_inv
    obtain ⟨hv, hlater⟩ := ih rest
    exact ⟨hv, served.later.trans hlater⟩

/-- Of two visits of a history, the later one finds the store later than the earlier one did. -/
theorem History.later_of_mem {s s' : Store} {us vs : List Visit} {u v : Visit}
    (h : History s (us ++ v :: vs) s') (hu : u ∈ us) : u.before.Later v.before := by
  induction us generalizing s with
  | nil => cases hu
  | cons w us ih =>
    obtain ⟨rfl, served, rest⟩ := h.cons_inv
    rcases List.mem_cons.1 hu with rfl | hmem
    · exact served.later.trans rest.later_before.2
    · exact ih rest hmem

/-- **No update is lost.** From the creation of a request on, whatever accesses clients make to the
store: the writes to the request present the revisions from the first one on, without gap or repeat, and
store the revision after the one presented. Each replies with the record that it stores, and finds the
record of the revision it presents, which is the one that any visit before it found at that revision. -/
theorem no_update_lost (s : Store) (r : VerificationRequest) (created : (s.create r).1 = .ok r)
    (accesses : List (Instant × Access)) :
    let vs := (s.create r).2.visits accesses
    let ws := vs.filterMap (Visit.rewrite? r.id)
    ws.map (·.record.revision.toNat) = List.range' (r.revision.toNat + 1) ws.length ∧
      ws.map (·.base.toNat) = List.range' r.revision.toNat ws.length ∧ (ws.map (·.base)).Nodup ∧
      ∀ earlier v later w, vs = earlier ++ v :: later → v.rewrite? r.id = some w →
        v.reply = .request (.ok w.record) ∧ v.after.requests.get? r.id = some w.record ∧
          ∃ stored, v.before.requests.get? r.id = some stored ∧ stored.revision = w.base ∧
            ∀ u ∈ earlier, ∀ seen, u.before.requests.get? r.id = some seen →
              seen.revision = w.base → seen = stored := by
  intro vs ws
  have found : (s.create r).2.requests.get? r.id = some r := by
    rcases create_cases s r with ⟨hw, -⟩ | ⟨e, he⟩
    · generalize (s.create r).2 = s' at hw
      cases hw
      rw [get?_put, if_pos rfl]
    · rw [he] at created
      cases created
  obtain ⟨s', history⟩ := exists_history_visits (s.create r).2 accesses
  obtain ⟨hbases, hrevisions⟩ := history.rewrites found
  refine ⟨hrevisions, hbases, ?_, ?_⟩
  · have hnodup : ((ws.map (·.base)).map UInt64.toNat).Nodup := by
      rw [List.map_map]
      exact hbases ▸ List.nodup_range'
    exact List.Nodup.of_map _ hnodup
  · intro earlier v later w hvs hw
    have split : History (s.create r).2 (earlier ++ v :: later) s' := hvs ▸ history
    obtain ⟨served, hlater⟩ := split.later_before
    obtain ⟨stored, hstored, -⟩ := hlater r.id r found
    obtain ⟨hbase, hafter⟩ : stored.revision = w.base ∧ v.after.requests.get? r.id = some w.record := by
      rcases served.rewrite_or_same hstored with ⟨hnone, -⟩ | ⟨r', hsome, -, hafter⟩
      · rw [hnone] at hw
        cases hw
      · rw [hsome] at hw
        cases hw
        exact ⟨rfl, hafter⟩
    refine ⟨Visit.reply_of_rewrite? hw, hafter, stored, hstored, hbase, fun u hu seen hseen hrev => ?_⟩
    -- The record that was seen has evolved to the one that is written to, at the same revision.
    obtain ⟨now, hnow, hevolves⟩ := split.later_of_mem hu r.id seen hseen
    rw [hstored] at hnow
    cases hnow
    exact hevolves.eq_of_revision (hbase.trans hrev.symm)

/-- Four writers of a new request, the first three on the revision of its creation and the last on
the next one: two of them succeed. -/
theorem no_update_lost_of_race :
    let r := VerificationRequest.create "r1" "p1" "u1" "Acme" default default
    let vs := (empty.create r).2.visits
      [(default, .update r), (default, .compareAndSet "r1" .pending 0 .accepted),
        (default, .update r), (default, .compareAndSet "r1" .pending 1 .rejected)]
    let ws := vs.filterMap (Visit.rewrite? "r1")
    (empty.create r).1 = .ok r ∧ vs.length = 4 ∧ ws.map (·.record.revision.toNat) = [1, 2] ∧
      ws.map (·.base.toNat) = [0, 1] ∧ (ws.map (·.base)).Nodup := by
  intro r vs ws
  have counted := no_update_lost empty r rfl
    [(default, .update r), (default, .compareAndSet "r1" .pending 0 .accepted),
      (default, .update r), (default, .compareAndSet "r1" .pending 1 .rejected)]
  exact ⟨rfl, rfl, counted.1, counted.2.1, counted.2.2.1⟩

end Store

end SealedCustody
