import SealedCustody.Request.Lifecycle
import Mathlib.Logic.Basic

/-!
# Histories of the requests in a store

A store is visited by any number of clients, one access after another. `Store.Writes` says once what
a write that is carried out finds and leaves; every other access leaves the store as it was
(`Visit.Served.writes_or_unchanged`). A history is a list of visits, each made to the store that the
one before it left.

## What a history keeps

`VerificationRequest.Evolves` relates what a request was to what it is now. It is an order in which
the revision tells two records apart, and along which a terminal record stays what it is. Every
history moves every request along it (`Store.History.later`), whatever its clients present.
-/

namespace SealedCustody

open Lifecycle

/-! ## The versions of a request -/

namespace VerificationRequest

/-- What a request was, and what it is now: either nothing was written to it, or what was written
first found it pending. Requester and subject stay, and every write raises the revision. -/
def Evolves (old new : VerificationRequest) : Prop :=
  old = new ∨
    (old.status = .pending ∧ new.requesterId = old.requesterId ∧ new.subjectId = old.subjectId ∧
      old.revision.toNat < new.revision.toNat)

theorem Evolves.refl (r : VerificationRequest) : r.Evolves r := Or.inl rfl

theorem Evolves.trans {a b c : VerificationRequest} (hab : a.Evolves b) (hbc : b.Evolves c) :
    a.Evolves c := by
  rcases hab with rfl | ⟨hp, hr, hs, hlt⟩
  · exact hbc
  · rcases hbc with rfl | ⟨-, hr', hs', hlt'⟩
    · exact Or.inr ⟨hp, hr, hs, hlt⟩
    · exact Or.inr ⟨hp, hr'.trans hr, hs'.trans hs, by omega⟩

/-- Two versions of one revision are the same record. -/
theorem Evolves.eq_of_revision {old new : VerificationRequest} (h : old.Evolves new)
    (hrev : new.revision = old.revision) : old = new := by
  rcases h with rfl | ⟨-, -, -, hlt⟩
  · rfl
  · rw [hrev] at hlt
    exact absurd hlt (Nat.lt_irrefl _)

/-- A request that has been decided stays what it is. -/
theorem Evolves.eq_of_ne_pending {old new : VerificationRequest} (h : old.Evolves new)
    (hs : old.status ≠ .pending) : old = new := by
  rcases h with rfl | ⟨hp, -, -, -⟩
  · rfl
  · exact absurd hp hs

theorem toNat_revision_succ {r : VerificationRequest}
    (room : r.revision.toNat + 1 < UInt64.size) :
    (r.revision + 1).toNat = r.revision.toNat + 1 := by
  rw [UInt64.toNat_add]
  exact Nat.mod_eq_of_lt room

end VerificationRequest

namespace Store

/-! ## What a write does -/

/-- The store with a record put under an id. -/
def put (s : Store) (id : String) (r : VerificationRequest) : Store :=
  { s with requests := s.requests.insert id r }

@[simp]
theorem get?_put (s : Store) (id : String) (r : VerificationRequest) (k : String) :
    (s.put id r).requests.get? k = if id = k then some r else s.requests.get? k :=
  Table.get?_insert s.requests id r k

/-- A write that is carried out: what asked for it, the record that it stores, and the store after
it. -/
inductive Writes (s : Store) : Access → VerificationRequest → Store → Prop where
  | create {r : VerificationRequest} (free : s.requests.get? r.id = none) :
      Writes s (.create r) r (s.put r.id r)
  | update {stored r : VerificationRequest} (found : s.requests.get? r.id = some stored)
      (pending : stored.status = .pending) (requester : r.requesterId = stored.requesterId)
      (subject : r.subjectId = stored.subjectId) (current : r.revision = stored.revision)
      (room : stored.revision.toNat + 1 < UInt64.size) :
      Writes s (.update r) { r with revision := stored.revision + 1 }
        (s.put r.id { r with revision := stored.revision + 1 })
  | compareAndSet {id : String} {stored : VerificationRequest} {next : RequestStatus}
      {now : Instant} (found : s.requests.get? id = some stored)
      (pending : stored.status = .pending) (final : next ≠ .pending)
      (room : stored.revision.toNat + 1 < UInt64.size) :
      Writes s (.compareAndSet id .pending stored.revision next)
        { stored with status := next, updatedAt := now, revision := stored.revision + 1 }
        (s.put id
          { stored with status := next, updatedAt := now, revision := stored.revision + 1 })

theorem create_cases (s : Store) (r : VerificationRequest) :
    (Writes s (.create r) r (s.create r).2 ∧ (s.create r).1 = .ok r) ∨
      ∃ e, s.create r = (.error e, s) := by
  unfold Store.create
  split
  · exact Or.inr ⟨_, rfl⟩
  · rename_i hfree
    refine Or.inl ⟨.create ?_, rfl⟩
    simpa [Table.contains_eq_isSome] using hfree

/-- A terminal status does not change, and pending changes to every terminal one. -/
theorem canBecome_iff (a b : RequestStatus) :
    a.canBecome b = true ↔ a = .pending ∧ b ≠ .pending := by
  cases a <;> cases b <;> decide

theorem checkTransition_ok {r : VerificationRequest} {next : RequestStatus}
    (h : r.checkTransition next = .ok ()) : r.status = .pending ∧ next ≠ .pending := by
  unfold VerificationRequest.checkTransition at h
  split at h
  · rename_i hbecome
    exact (canBecome_iff _ _).1 hbecome
  · cases h

theorem nextRevision_ok {r : VerificationRequest} {revision : UInt64}
    (h : r.nextRevision = .ok revision) :
    r.revision.toNat + 1 < UInt64.size ∧ revision = r.revision + 1 := by
  unfold VerificationRequest.nextRevision at h
  split at h
  · rename_i room
    exact ⟨room, (Except.ok.inj h).symm⟩
  · cases h

/-- A record may replace the stored one only while that is pending, at its revision, and for the
same requester and subject. -/
theorem updateFault?_eq_none {stored r : VerificationRequest} (h : updateFault? stored r = none) :
    stored.status = .pending ∧ r.requesterId = stored.requesterId ∧ r.subjectId = stored.subjectId ∧
      r.revision = stored.revision := by
  unfold updateFault? at h
  split at h
  · cases h
  rename_i hids
  split at h
  · cases h
  rename_i hstatus
  split at h
  · cases h
  rename_i hrev
  rw [not_or, not_not, not_not] at hids
  refine ⟨?_, hids.1.symm, hids.2.symm, (not_not.1 hrev).symm⟩
  -- A decided record is turned away even at its own status, which no transition leads to.
  by_cases hp : stored.status = .pending
  · exact hp
  · have hterm : stored.status.isTerminal = true := by simpa [RequestStatus.isTerminal] using hp
    have hstay : stored.status.canBecome r.status = false := by
      rw [Bool.eq_false_iff, ne_eq, canBecome_iff]
      exact fun hb => hp hb.1
    exact absurd ⟨Or.inr hterm, hstay⟩ hstatus

theorem update_cases (s : Store) (r : VerificationRequest) :
    (∃ r', Writes s (.update r) r' (s.update r).2 ∧ (s.update r).1 = .ok r') ∨
      ∃ e, s.update r = (.error e, s) := by
  unfold Store.update
  split
  · exact Or.inr ⟨_, rfl⟩
  rename_i stored found
  split
  · exact Or.inr ⟨_, rfl⟩
  rename_i hfault
  split
  · exact Or.inr ⟨_, rfl⟩
  rename_i revision hnext
  obtain ⟨pending, requester, subject, current⟩ := updateFault?_eq_none hfault
  obtain ⟨room, rfl⟩ := nextRevision_ok hnext
  exact Or.inl ⟨_, .update found pending requester subject current room, rfl⟩

theorem compareAndSet_cases (s : Store) (id : String) (expected : RequestStatus) (revision : UInt64)
    (next : RequestStatus) (now : Instant) :
    (∃ r, Writes s (.compareAndSet id expected revision next) r
        (s.compareAndSet id expected revision next now).2 ∧
        (s.compareAndSet id expected revision next now).1 = .ok r) ∨
      ∃ e, s.compareAndSet id expected revision next now = (.error e, s) := by
  unfold Store.compareAndSet
  split
  · exact Or.inr ⟨_, rfl⟩
  rename_i stored found
  split
  · exact Or.inr ⟨_, rfl⟩
  rename_i hstatus
  split
  · exact Or.inr ⟨_, rfl⟩
  rename_i hrev
  split
  · exact Or.inr ⟨_, rfl⟩
  rename_i r hmove
  -- The status and the revision that were presented are those of the stored record.
  obtain rfl := not_not.1 hstatus
  obtain rfl := not_not.1 hrev
  unfold VerificationRequest.transition at hmove
  split at hmove
  · cases hmove
  rename_i hcheck
  obtain ⟨hp, final⟩ := checkTransition_ok hcheck
  cases hnext : stored.nextRevision with
  | error e => rw [hnext] at hmove; cases hmove
  | ok revision =>
    rw [hnext] at hmove
    obtain ⟨room, rfl⟩ := nextRevision_ok hnext
    cases hmove
    rw [hp]
    exact Or.inl ⟨_, .compareAndSet found hp final room, rfl⟩

/-- A commit is carried out if it finds the request pending, at its revision and with a revision
left. -/
theorem compareAndSet_ok {s : Store} {id : String} {stored : VerificationRequest}
    {next : RequestStatus} (found : s.requests.get? id = some stored)
    (pending : stored.status = .pending) (final : next ≠ .pending)
    (room : stored.revision.toNat + 1 < UInt64.size) (now : Instant) :
    ∃ r, (s.compareAndSet id .pending stored.revision next now).1 = .ok r := by
  have hcheck : stored.checkTransition next = .ok () := by
    unfold VerificationRequest.checkTransition
    rw [if_pos ((canBecome_iff _ _).2 ⟨pending, final⟩)]
  have hnext : stored.nextRevision = .ok (stored.revision + 1) := by
    unfold VerificationRequest.nextRevision
    rw [if_pos room]
  have hmove : stored.transition next now =
      .ok { stored with status := next, updatedAt := now, revision := stored.revision + 1 } := by
    unfold VerificationRequest.transition
    rw [hcheck, hnext]
    rfl
  unfold compareAndSet
  rw [found]
  dsimp only
  rw [if_neg (not_not.2 pending), if_neg (not_not.2 rfl), hmove]
  exact ⟨_, rfl⟩

theorem perform_create (s : Store) (now : Instant) (r : VerificationRequest) :
    s.perform now (.create r) = (some (.request (s.create r).1), (s.create r).2) := rfl

theorem perform_update (s : Store) (now : Instant) (r : VerificationRequest) :
    s.perform now (.update r) = (some (.request (s.update r).1), (s.update r).2) := rfl

theorem perform_compareAndSet (s : Store) (now : Instant) (id : String) (expected : RequestStatus)
    (revision : UInt64) (next : RequestStatus) :
    s.perform now (.compareAndSet id expected revision next) =
      (some (.request (s.compareAndSet id expected revision next now).1),
        (s.compareAndSet id expected revision next now).2) := rfl

/-! ## Visits -/

/-- An access that was made: what was asked, what was replied, and the store before and after. -/
structure Visit where
  access : Access
  reply : Reply
  before : Store
  after : Store

namespace Visit

/-- What may come of an access: the store performs it, or the network answers it. -/
inductive Served : Visit → Prop where
  | store {s s' : Store} {now : Instant} {access : Access} {reply : Reply}
      (performed : s.perform now access = (some reply, s')) : Served ⟨access, reply, s, s'⟩
  | network (s : Store) (r : VerificationRequest) (result : Except Error Outcome) :
      Served ⟨.dispatch r, .outcome result, s, s⟩

/-- The record that the visit stored, if it did. -/
def written? (v : Visit) : Option VerificationRequest :=
  match v.reply with
  | .request (.ok r) => some r
  | _ => none

theorem written?_eq_none {v : Visit} (h : ∀ r, v.reply ≠ .request (.ok r)) : v.written? = none := by
  unfold written?
  split
  · rename_i r hr
    exact absurd hr (h r)
  · rfl

theorem reply_of_written? {v : Visit} {r : VerificationRequest} (h : v.written? = some r) :
    v.reply = .request (.ok r) := by
  unfold written? at h
  split at h
  · rename_i r' hreply
    cases h
    exact hreply
  · cases h

/-- A visit either carries a write out or leaves the store as it was. -/
theorem Served.writes_or_unchanged {v : Visit} (h : v.Served) :
    (∃ r, v.written? = some r ∧ Writes v.before v.access r v.after) ∨
      (v.written? = none ∧ v.after = v.before) := by
  cases h with
  | network s r result => exact Or.inr ⟨rfl, rfl⟩
  | @store s s' now access reply performed =>
    cases access with
    | create r =>
      rw [perform_create, Prod.mk.injEq, Option.some.injEq] at performed
      obtain ⟨rfl, rfl⟩ := performed
      rcases create_cases s r with ⟨hw, hok⟩ | ⟨e, he⟩
      · exact Or.inl ⟨r, by rw [written?, hok], hw⟩
      · exact Or.inr ⟨by rw [written?, he], by rw [he]⟩
    | update r =>
      rw [perform_update, Prod.mk.injEq, Option.some.injEq] at performed
      obtain ⟨rfl, rfl⟩ := performed
      rcases update_cases s r with ⟨r', hw, hok⟩ | ⟨e, he⟩
      · exact Or.inl ⟨r', by rw [written?, hok], hw⟩
      · exact Or.inr ⟨by rw [written?, he], by rw [he]⟩
    | compareAndSet id expected revision next =>
      rw [perform_compareAndSet, Prod.mk.injEq, Option.some.injEq] at performed
      obtain ⟨rfl, rfl⟩ := performed
      rcases compareAndSet_cases s id expected revision next now with ⟨r, hw, hok⟩ | ⟨e, he⟩
      · exact Or.inl ⟨r, by rw [written?, hok], hw⟩
      · exact Or.inr ⟨by rw [written?, he], by rw [he]⟩
    | get f => cases performed; exact Or.inr ⟨rfl, rfl⟩
    | dispatch r => cases performed

/-- A visit that wrote nothing left the store as it was. -/
theorem Served.unchanged {v : Visit} (h : v.Served) (hw : v.written? = none) :
    v.after = v.before := by
  rcases h.writes_or_unchanged with ⟨r, hr, -⟩ | ⟨-, hsame⟩
  · rw [hw] at hr; cases hr
  · exact hsame

/-- A visit that wrote a record carried its write out. -/
theorem Served.writes {v : Visit} (h : v.Served) {r : VerificationRequest}
    (hr : v.written? = some r) : Writes v.before v.access r v.after := by
  rcases h.writes_or_unchanged with ⟨r', hr', hw⟩ | ⟨hnone, -⟩
  · rw [hr] at hr'
    cases hr'
    exact hw
  · rw [hr] at hnone; cases hnone

/-- The reply is of the kind that the access asks for; requests are read from the store as it is. -/
theorem Served.reply_eq {v : Visit} (h : v.Served) :
    match v.access with
    | .get f => v.reply = .requests (v.before.get f)
    | .dispatch _ => ∃ result, v.reply = .outcome result
    | _ => ∃ result, v.reply = .request result := by
  cases h with
  | network s r result => exact ⟨result, rfl⟩
  | @store s s' now access reply performed =>
    cases access with
    | get f => cases performed; rfl
    | dispatch r => cases performed
    | _ => cases performed; exact ⟨_, rfl⟩

/-- A commit on the present revision of a pending request is answered with a record. -/
theorem Served.reply_ok {v : Visit} (h : v.Served) {id : String} {stored : VerificationRequest}
    {next : RequestStatus} (asked : v.access = .compareAndSet id .pending stored.revision next)
    (found : v.before.requests.get? id = some stored) (pending : stored.status = .pending)
    (final : next ≠ .pending) (room : stored.revision.toNat + 1 < UInt64.size) :
    ∃ r, v.reply = .request (.ok r) := by
  cases h with
  | network s r result => cases asked
  | @store s s' now access reply performed =>
    obtain rfl : access = .compareAndSet id .pending stored.revision next := asked
    obtain ⟨r, hr⟩ := compareAndSet_ok found pending final room now
    rw [perform_compareAndSet, Prod.mk.injEq, Option.some.injEq] at performed
    exact ⟨r, by rw [← performed.1, hr]⟩

end Visit

/-- What is read under an id has that id and is stored. -/
theorem mem_get_byId {s : Store} {id : String} {rs : List VerificationRequest}
    (h : s.get (.byId id) = .ok rs) {r : VerificationRequest} (hr : r ∈ rs) :
    r.id = id ∧ ∃ k, s.requests.get? k = some r := by
  unfold Store.get at h
  rw [if_neg (by simp [RequestFilter.byId, RequestFilter.isEmpty])] at h
  cases h
  rw [List.mem_mergeSort, List.mem_filter] at hr
  obtain ⟨hmem, hmatch⟩ := hr
  refine ⟨Eq.symm ?_, Table.mem_values.1 hmem⟩
  simpa [RequestFilter.byId, RequestFilter.«matches», RequestFilter.agrees] using hmatch

/-! ## Histories -/

/-- Visits in order, each made to the store that the one before it left. -/
inductive History : Store → List Visit → Store → Prop where
  | nil (s : Store) : History s [] s
  | cons {v : Visit} {vs : List Visit} {s : Store} (served : v.Served)
      (rest : History v.after vs s) : History v.before (v :: vs) s

/-- Every request of the one store has evolved to what the other holds. -/
def Later (s s' : Store) : Prop :=
  ∀ id r, s.requests.get? id = some r → ∃ r', s'.requests.get? id = some r' ∧ r.Evolves r'

theorem Later.refl (s : Store) : s.Later s := fun _ r h => ⟨r, h, .refl r⟩

theorem Later.trans {a b c : Store} (hab : a.Later b) (hbc : b.Later c) : a.Later c := by
  intro id r hr
  obtain ⟨r', hr', h'⟩ := hab id r hr
  obtain ⟨r'', hr'', h''⟩ := hbc id r' hr'
  exact ⟨r'', hr'', h'.trans h''⟩

/-- Putting a later version of what is stored keeps every other request. -/
theorem later_put {s : Store} {id : String} {r : VerificationRequest}
    (h : ∀ stored, s.requests.get? id = some stored → stored.Evolves r) : s.Later (s.put id r) := by
  intro k stored hk
  rw [get?_put]
  by_cases hid : id = k
  · subst hid
    exact ⟨r, if_pos rfl, h stored hk⟩
  · exact ⟨stored, by rw [if_neg hid, hk], .refl stored⟩

theorem Writes.later {s s' : Store} {a : Access} {r : VerificationRequest} (h : Writes s a r s') :
    s.Later s' := by
  cases h with
  | create free =>
    refine later_put fun stored hs => ?_
    rw [free] at hs
    cases hs
  | update found pending requester subject current room =>
    refine later_put fun stored hs => ?_
    rw [found] at hs
    cases hs
    refine Or.inr ⟨pending, requester, subject, ?_⟩
    rw [VerificationRequest.toNat_revision_succ room]
    exact Nat.lt_succ_self _
  | compareAndSet found pending final room =>
    refine later_put fun stored hs => ?_
    rw [found] at hs
    cases hs
    refine Or.inr ⟨pending, rfl, rfl, ?_⟩
    rw [VerificationRequest.toNat_revision_succ room]
    exact Nat.lt_succ_self _

/-- What is stored after a write is the record that it stored, or was there before. -/
theorem Writes.eq_or_stored {s s' : Store} {a : Access} {r : VerificationRequest}
    (h : Writes s a r s') {id : String} {x : VerificationRequest}
    (hx : s'.requests.get? id = some x) :
    x = r ∨ s.requests.get? id = some x := by
  cases h with
  | _ =>
    rw [get?_put] at hx
    split at hx
    · exact Or.inl (Option.some.inj hx).symm
    · exact Or.inr hx

theorem Visit.Served.later {v : Visit} (h : v.Served) : v.before.Later v.after := by
  rcases h.writes_or_unchanged with ⟨r, -, hw⟩ | ⟨-, hsame⟩
  · exact hw.later
  · rw [hsame]
    exact .refl _

/-- A history moves every request forward. -/
theorem History.later {s s' : Store} {vs : List Visit} (h : History s vs s') : s.Later s' := by
  induction h with
  | nil s => exact .refl s
  | cons served rest ih => exact served.later.trans ih

/-! ## Keys -/

/-- Every request stands under its own id, as it does in a store filled through its operations. -/
def Keyed (s : Store) : Prop := ∀ id r, s.requests.get? id = some r → r.id = id

theorem keyed_empty : empty.Keyed := by
  intro id r h
  cases h

/-- What stands under an id is what is read by it. -/
theorem Keyed.get_byId {s : Store} (h : s.Keyed) {id : String} {r : VerificationRequest}
    (found : s.requests.get? id = some r) : ∃ rest, s.get (.byId id) = .ok (r :: rest) := by
  have hget : s.get (.byId id) =
      .ok ((s.requests.values.filter (RequestFilter.byId id).matches).mergeSort isBefore) := by
    unfold Store.get
    rw [if_neg (by simp [RequestFilter.byId, RequestFilter.isEmpty])]
  have hmem : r ∈
      (s.requests.values.filter (RequestFilter.byId id).matches).mergeSort isBefore := by
    rw [List.mem_mergeSort, List.mem_filter]
    refine ⟨Table.mem_values.2 ⟨id, found⟩, ?_⟩
    simp [RequestFilter.byId, RequestFilter.«matches», RequestFilter.agrees, h id r found]
  generalize (s.requests.values.filter _).mergeSort isBefore = rs at hget hmem
  cases rs with
  | nil => cases hmem
  | cons x rest =>
    obtain ⟨hid, k, hk⟩ := mem_get_byId hget List.mem_cons_self
    obtain rfl : k = id := by rw [← h k x hk, hid]
    rw [found] at hk
    cases hk
    exact ⟨rest, hget⟩

theorem Keyed.put {s : Store} (h : s.Keyed) {id : String} {r : VerificationRequest}
    (hr : r.id = id) : (s.put id r).Keyed := by
  intro k r' hk
  rw [get?_put] at hk
  split at hk
  · rename_i hid
    cases hk
    rw [hr, hid]
  · exact h k r' hk

theorem Writes.keyed {s s' : Store} {a : Access} {r : VerificationRequest} (h : Writes s a r s')
    (hs : s.Keyed) : s'.Keyed := by
  cases h with
  | create => exact hs.put rfl
  | update => exact hs.put rfl
  | @compareAndSet id stored next now found =>
    exact hs.put (show stored.id = id from hs id stored found)

theorem Visit.Served.keyed {v : Visit} (h : v.Served) (hs : v.before.Keyed) : v.after.Keyed := by
  rcases h.writes_or_unchanged with ⟨r, -, hw⟩ | ⟨-, hsame⟩
  · exact hw.keyed hs
  · rw [hsame]
    exact hs

end Store

end SealedCustody
