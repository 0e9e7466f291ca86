import SealedCustody.Proofs.Store.History

/-!
# The course of a call

A demand of a client starts a call. The call makes an access, takes the reply and goes on to the
next access, until it returns. A course is the list of its visits so far, made to whatever stores
and network it met; what others did in between shows only in the stores that the visits found.

`Call.Resumed` says once what taking a reply can do, and `Demand.Leads` which calls a demand can
become.
-/

namespace SealedCustody.Lifecycle

open Store (Visit Writes mem_get_byId checkTransition_ok)

/-! ## Demands -/

/-- What a client may demand of a manager. -/
inductive Demand where
  | create (fresh requesterId subjectId displayName : String) (criteria : Criteria) (now : Instant)
  | resolve (id : String) (decision : Decision)
  | cancel (id : String)
  | amend (id : String) (criteria : Criteria) (status : RequestStatus)

namespace Demand

/-- The call that a demand starts. -/
def call : Demand → Call
  | create fresh requesterId subjectId displayName criteria now =>
    Lifecycle.create fresh requesterId subjectId displayName criteria now
  | resolve id decision => Lifecycle.resolve id decision
  | cancel id => Lifecycle.cancel id
  | amend id criteria status => Lifecycle.amend id criteria status

/-- The request that a demand has read first, and what for. -/
def purpose? : Demand → Option (String × Purpose)
  | create .. => none
  | resolve id decision => some (id, .resolve decision)
  | cancel id => some (id, .cancel)
  | amend id criteria status => some (id, .amend criteria status)

/-- The request that a demand decides if it is met, and the status that it gives it. -/
def target? : Demand → Option (String × RequestStatus)
  | resolve id decision => some (id, decision.target)
  | cancel id | amend id _ .cancelled => some (id, .cancelled)
  | _ => none

/-- The calls that a demand may become. -/
inductive Leads : Demand → Call → Prop where
  | creating {fresh requesterId subjectId displayName : String} {criteria : Criteria}
      {now : Instant} (requester : requesterId ≠ "") (subject : subjectId ≠ "")
      (valid : criteria.validate = .ok ()) :
      Leads (.create fresh requesterId subjectId displayName criteria now)
        (.creating (.create fresh requesterId subjectId displayName criteria now))
  | reading {d : Demand} {id : String} {purpose : Purpose}
      (first : d.purpose? = some (id, purpose)) : Leads d (.reading id purpose)
  | dispatching {id : String} {current : VerificationRequest} (named : current.id = id)
      (pending : current.status = .pending) : Leads (.resolve id .accept) (.dispatching id current)
  | committing {d : Demand} {id : String} {current : VerificationRequest} {next : RequestStatus}
      {outcome : Option Outcome} (aim : d.target? = some (id, next)) (named : current.id = id)
      (pending : current.status = .pending) : Leads d (.committing id current next outcome)
  | updating {id : String} {criteria : Criteria} {status : RequestStatus}
      {record : VerificationRequest} (named : record.id = id) (pending : record.status = .pending)
      (amended : record.criteria = criteria) (valid : criteria.validate = .ok ())
      (undecided : status = .pending ∨ status = .cancelled) :
      Leads (.amend id criteria status) (.updating id record status)
  | withdrawing {id : String} {criteria : Criteria} :
      Leads (.amend id criteria .cancelled) (.reading id .cancel)
  | done {d : Demand} {result : Except Error (VerificationRequest × Option Outcome)} :
      Leads d (.done result)

theorem Leads.pending_of_creating {d : Demand} {r : VerificationRequest}
    (h : d.Leads (.creating r)) : r.status = .pending := by
  cases h with
  | creating requester subject valid => rfl

theorem Leads.of_updating {d : Demand} {id : String} {record : VerificationRequest}
    {status : RequestStatus} (h : d.Leads (.updating id record status)) :
    d = .amend id record.criteria status ∧ record.id = id ∧ record.status = .pending := by
  cases h with
  | updating named pending amended valid undecided =>
    subst amended
    exact ⟨rfl, named, pending⟩

theorem Leads.of_committing {d : Demand} {id : String} {current : VerificationRequest}
    {next : RequestStatus} {outcome : Option Outcome}
    (h : d.Leads (.committing id current next outcome)) :
    d.target? = some (id, next) ∧ current.id = id ∧ current.status = .pending := by
  cases h with
  | committing aim named pending => exact ⟨aim, named, pending⟩

theorem leads_call (d : Demand) : d.Leads d.call := by
  cases d with
  | create fresh requesterId subjectId displayName criteria now =>
    simp only [call, Lifecycle.create]
    split
    · exact .done
    · rename_i hset
      rw [not_or] at hset
      split
      · exact .done
      · rename_i valid
        exact .creating hset.1 hset.2 valid
  | resolve id decision => exact .reading rfl
  | cancel id => exact .reading rfl
  | amend id criteria status => exact .reading rfl

/-- A demand is refused at once, or starts with storing or with reading a request. -/
theorem call_cases (d : Demand) :
    (∃ e, d.call = .done (.error e)) ∨ (∃ r, d.call = .creating r) ∨
      ∃ id purpose, d.call = .reading id purpose := by
  cases d with
  | create fresh requesterId subjectId displayName criteria now =>
    simp only [call, Lifecycle.create]
    split
    · exact Or.inl ⟨_, rfl⟩
    · split
      · exact Or.inl ⟨_, rfl⟩
      · exact Or.inr (Or.inl ⟨_, rfl⟩)
  | _ => exact Or.inr (Or.inr ⟨_, _, rfl⟩)

/-- A call that has read its request goes on to a call of the same demand. -/
theorem Leads.afterRead {d : Demand} {id : String} {purpose : Purpose}
    (h : d.Leads (.reading id purpose)) {current : VerificationRequest} (named : current.id = id)
    (now : Instant) : d.Leads (Call.afterRead id current now purpose) := by
  -- A request is withdrawn alike on a demand of its own and as the second half of an amendment.
  have hcancel (aim : d.target? = some (id, .cancelled)) :
      d.Leads (Call.afterRead id current now .cancel) := by
    simp only [Call.afterRead]
    split
    · exact .done
    · rename_i hcheck
      exact .committing aim named (checkTransition_ok hcheck).1
  cases h with
  | withdrawing => exact hcancel rfl
  | reading first =>
    cases d with
    | create => cases first
    | resolve k decision =>
      cases first
      simp only [Call.afterRead]
      split
      · exact .done
      · rename_i hcheck
        have pending := (checkTransition_ok hcheck).1
        cases decision with
        | accept => exact .dispatching named pending
        | reject => exact .committing rfl named pending
    | cancel k =>
      cases first
      exact hcancel rfl
    | amend k criteria status =>
      cases first
      simp only [Call.afterRead]
      split
      · exact .done
      · rename_i hstate
        rw [not_or, not_or, not_not] at hstate
        split
        · exact .done
        · rename_i valid
          refine .updating named hstate.1 rfl valid ?_
          cases status with
          | pending => exact Or.inl rfl
          | cancelled => exact Or.inr rfl
          | accepted => exact absurd rfl hstate.2.1
          | rejected => exact absurd rfl hstate.2.2

end Demand

/-! ## Taking a reply -/

namespace Call

/-- A call that has read its request is refused, asks the network about what was read, commits
another status than acceptance to it, or writes an amended record. -/
theorem afterRead_cases (id : String) (current : VerificationRequest) (now : Instant)
    (purpose : Purpose) :
    (∃ e, afterRead id current now purpose = .done (.error e)) ∨
      afterRead id current now purpose = .dispatching id current ∨
      (∃ next, next ≠ .accepted ∧
        afterRead id current now purpose = .committing id current next none) ∨
      ∃ record status, afterRead id current now purpose = .updating id record status := by
  cases purpose with
  | resolve decision =>
    simp only [afterRead]
    split
    · exact Or.inl ⟨_, rfl⟩
    · cases decision with
      | accept => exact Or.inr (Or.inl rfl)
      | reject => exact Or.inr (Or.inr (Or.inl ⟨_, by decide, rfl⟩))
  | cancel =>
    simp only [afterRead]
    split
    · exact Or.inl ⟨_, rfl⟩
    · exact Or.inr (Or.inr (Or.inl ⟨_, by decide, rfl⟩))
  | amend criteria status =>
    simp only [afterRead]
    split
    · exact Or.inl ⟨_, rfl⟩
    · split
      · exact Or.inl ⟨_, rfl⟩
      · exact Or.inr (Or.inr (Or.inr ⟨_, _, rfl⟩))

/-- A call about to read a request is replied to with what is stored. -/
theorem reply_of_reading {id : String} {purpose : Purpose} {v : Visit}
    (asked : (reading id purpose).access? = some v.access) (served : v.Served) :
    v.reply = .requests (v.before.get (.byId id)) := by
  have hreply := served.reply_eq
  rw [← Option.some.inj asked] at hreply
  exact hreply

/-- A call about to commit is replied to with a record or an error. -/
theorem reply_of_committing {id : String} {current : VerificationRequest} {next : RequestStatus}
    {outcome : Option Outcome} {v : Visit}
    (asked : (committing id current next outcome).access? = some v.access) (served : v.Served) :
    ∃ result, v.reply = .request result := by
  have hreply := served.reply_eq
  rw [← Option.some.inj asked] at hreply
  exact hreply

/-- What a call becomes when it takes the reply to its access, and the events that it announces. -/
inductive Resumed (now : Instant) : Call → Reply → Call → List Event → Prop where
  | created {r₀ r : VerificationRequest} :
      Resumed now (.creating r₀) (.request (.ok r)) (.done (.ok (r, none))) [.requestCreated r.id]
  | read {id : String} {purpose : Purpose} {current : VerificationRequest}
      {rest : List VerificationRequest} (named : current.id = id) :
      Resumed now (.reading id purpose) (.requests (.ok (current :: rest)))
        (afterRead id current now purpose) []
  | dispatched {id : String} {current : VerificationRequest} {o : Outcome} :
      Resumed now (.dispatching id current) (.outcome (.ok o))
        (.committing id current .accepted (some o)) [.verificationDispatched id o.peer o.verdict]
  | committed {id : String} {current : VerificationRequest} {next : RequestStatus}
      {outcome : Option Outcome} {r : VerificationRequest} :
      Resumed now (.committing id current next outcome) (.request (.ok r))
        (.done (.ok (r, outcome))) [.requestResolved id r.status]
  | amended {id : String} {record r : VerificationRequest} {status : RequestStatus}
      (kept : status ≠ .cancelled) :
      Resumed now (.updating id record status) (.request (.ok r)) (.done (.ok (r, none))) []
  | withdrawing {id : String} {record r : VerificationRequest} :
      Resumed now (.updating id record .cancelled) (.request (.ok r)) (.reading id .cancel) []
  | failed {call : Call} {reply : Reply} {e : Error} {events : List Event}
      (refused : ∀ r, reply ≠ .request (.ok r))
      (silent : ∀ id status, .requestResolved id status ∉ events) :
      Resumed now call reply (.done (.error e)) events

/-- Taking the reply to what was asked does one of these. -/
theorem resumed {call : Call} {v : Visit} (asked : call.access? = some v.access) (served : v.Served)
    (now : Instant) :
    Resumed now call v.reply (call.resume now v.reply).1 (call.resume now v.reply).2 := by
  have hreply := served.reply_eq
  cases call with
  | creating r₀ =>
    rw [← Option.some.inj asked] at hreply
    obtain ⟨result, hr⟩ := hreply
    rw [hr]
    cases result with
    | ok r => exact .created
    | error e => exact .failed (by simp) (by simp [resume])
  | reading id purpose =>
    rw [reply_of_reading asked served]
    cases hget : v.before.get (.byId id) with
    | error e => exact .failed (by simp) (by simp [resume])
    | ok rs =>
      cases rs with
      | nil => exact .failed (by simp) (by simp [resume])
      | cons current rest => exact .read (mem_get_byId hget List.mem_cons_self).1
  | dispatching id current =>
    rw [← Option.some.inj asked] at hreply
    obtain ⟨result, hr⟩ := hreply
    rw [hr]
    cases result with
    | ok o => exact .dispatched
    | error e => exact .failed (by simp) (by simp [resume])
  | committing id current next outcome =>
    obtain ⟨result, hr⟩ := reply_of_committing asked served
    rw [hr]
    cases result with
    | ok r => exact .committed
    | error e => exact .failed (by simp) (by simp [resume])
  | updating id record status =>
    rw [← Option.some.inj asked] at hreply
    obtain ⟨result, hr⟩ := hreply
    rw [hr]
    cases result with
    | ok r =>
      by_cases hc : status = .cancelled
      · subst hc
        exact .withdrawing
      · simp only [resume, if_neg hc]
        exact .amended hc
    | error e => exact .failed (by simp) (by simp [resume])
  | done result => cases asked

/-- A write that a call carries out: it adds the request to create, replaces a pending record by the
amended one, or moves the status of a pending record that is at the revision the call has read. -/
theorem writes_cases {call : Call} {a : Access} (asked : call.access? = some a) {s s' : Store}
    {r : VerificationRequest} (hw : Writes s a r s') :
    (call = .creating r ∧ s' = s.put r.id r) ∨
      (∃ id record status stored, call = .updating id record status ∧
        s.requests.get? record.id = some stored ∧ stored.status = .pending ∧
        record.requesterId = stored.requesterId ∧ record.subjectId = stored.subjectId ∧
        record.revision = stored.revision ∧ stored.revision.toNat + 1 < UInt64.size ∧
        r = { record with revision := stored.revision + 1 } ∧ s' = s.put record.id r) ∨
      ∃ id current next outcome stored now, call = .committing id current next outcome ∧
        s.requests.get? id = some stored ∧ stored.status = .pending ∧ next ≠ .pending ∧
        current.revision = stored.revision ∧
        r = { stored with status := next, updatedAt := now, revision := stored.revision + 1 } ∧
        s' = s.put id r := by
  cases call with
  | creating r₀ =>
    cases asked
    cases hw with
    | create free => exact Or.inl ⟨rfl, rfl⟩
  | updating id record status =>
    cases asked
    cases hw with
    | update found pending requester subject current room =>
      exact Or.inr (Or.inl ⟨id, record, status, _, rfl, found, pending, requester, subject, current,
        room, rfl, rfl⟩)
  | committing id current next outcome =>
    simp only [access?, Option.some.injEq] at asked
    cases hw with
    | create => cases asked
    | update => cases asked
    | compareAndSet found pending final room =>
      rw [Access.compareAndSet.injEq] at asked
      obtain ⟨rfl, -, hrev, rfl⟩ := asked
      exact Or.inr (Or.inr ⟨id, current, next, outcome, _, _, rfl, found, pending, final, hrev, rfl,
        rfl⟩)
  | reading id purpose => cases asked; cases hw
  | dispatching id current => cases asked; cases hw
  | done result => cases asked

end Call

theorem Demand.Leads.resumed {d : Demand} {call call' : Call} {reply : Reply} {events : List Event}
    {now : Instant} (h : d.Leads call) (hr : Call.Resumed now call reply call' events) :
    d.Leads call' := by
  cases hr with
  | created => exact .done
  | read named => exact h.afterRead named now
  | dispatched =>
    cases h with
    | dispatching named pending => exact .committing rfl named pending
  | committed => exact .done
  | amended kept => exact .done
  | withdrawing =>
    cases h with
    | updating named pending amended valid undecided => exact .withdrawing
  | failed refused silent => exact .done

/-! ## Courses -/

/-- The visits that a call has made in the course of a demand, and the reply that it has not yet
taken. -/
inductive Course (d : Demand) : List Visit → Call → Option Reply → Prop where
  | start : Course d [] d.call none
  | visit {vs : List Visit} {call : Call} {v : Visit} (before : Course d vs call none)
      (asked : call.access? = some v.access) (served : v.Served) :
      Course d (vs ++ [v]) call (some v.reply)
  | resume {vs : List Visit} {call : Call} {reply : Reply} (now : Instant)
      (before : Course d vs call (some reply)) : Course d vs (call.resume now reply).1 none

namespace Course

variable {d : Demand} {vs : List Visit} {call : Call} {reply : Reply}

/-- A reply that has not been taken is that of the last visit. -/
theorem exists_last (h : Course d vs call (some reply)) :
    ∃ us v, vs = us ++ [v] ∧ Course d us call none ∧ call.access? = some v.access ∧ v.Served ∧
      v.reply = reply := by
  cases h with
  | visit before asked served => exact ⟨_, _, rfl, before, asked, served, rfl⟩

theorem resumed (h : Course d vs call (some reply)) (now : Instant) :
    Call.Resumed now call reply (call.resume now reply).1 (call.resume now reply).2 := by
  obtain ⟨us, v, -, -, asked, served, rfl⟩ := h.exists_last
  exact Call.resumed asked served now

theorem leads {reply? : Option Reply} (h : Course d vs call reply?) : d.Leads call := by
  induction h with
  | start => exact d.leads_call
  | visit before asked served ih => exact ih
  | resume now before ih => exact ih.resumed (before.resumed now)

/-- What holds of a demand as it starts, and is kept by every access whose reply is taken, holds
whenever a call has no reply to take. -/
theorem idle_induction {P : List Visit → Call → Prop} (start : P [] d.call)
    (step : ∀ vs call v now, Course d vs call none → P vs call → call.access? = some v.access →
      v.Served → P (vs ++ [v]) (call.resume now v.reply).1)
    (h : Course d vs call none) : P vs call := by
  have both {vs : List Visit} {call : Call} {reply? : Option Reply} (h : Course d vs call reply?) :
      (reply? = none → P vs call) ∧ ∀ reply, reply? = some reply → ∃ us v, vs = us ++ [v] ∧
        Course d us call none ∧ P us call ∧ call.access? = some v.access ∧ v.Served ∧
          v.reply = reply := by
    induction h with
    | start => exact ⟨fun _ => start, fun reply hreply => by cases hreply⟩
    | @visit vs call v before asked served ih =>
      refine ⟨fun hnone => absurd hnone (Option.some_ne_none _), fun reply hreply => ?_⟩
      cases hreply
      exact ⟨vs, v, rfl, before, ih.1 rfl, asked, served, rfl⟩
    | @resume vs call reply now before ih =>
      refine ⟨fun _ => ?_, fun reply' hreply => by cases hreply⟩
      obtain ⟨us, v, rfl, idle, hus, asked, served, rfl⟩ := ih.2 reply rfl
      exact step us call v now idle hus asked served
  exact (both h).1 rfl

/-- A call that has no reply to take was just started, or has taken that of its last visit. -/
theorem idle_cases (h : Course d vs call none) :
    (vs = [] ∧ call = d.call) ∨ ∃ us call' v now, vs = us ++ [v] ∧ Course d us call' none ∧
      call'.access? = some v.access ∧ v.Served ∧ call = (call'.resume now v.reply).1 := by
  cases h with
  | start => exact Or.inl ⟨rfl, rfl⟩
  | @resume _ call' reply now before =>
    obtain ⟨us, v, rfl, idle, asked, served, rfl⟩ := before.exists_last
    exact Or.inr ⟨us, call', v, now, rfl, idle, asked, served, rfl⟩

end Course

end SealedCustody.Lifecycle
