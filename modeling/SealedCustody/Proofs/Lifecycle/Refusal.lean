import SealedCustody.Proofs.Lifecycle.Failure
import SealedCustody.Proofs.Lifecycle.Reading

/-!
# A refusal tells the truth

A call that decides, withdraws or amends a request may be refused where it has read the request, where
it replaces the record and where it commits, and each place checks in an order of its own.
`Store.Refuses` says once what a refusal tells of the store it is made from, and every place refuses so
(`Call.refused`).

A conflict tells that the request has changed since it was read and is pending all the same. A status
that is committed stays, so the change was the replacement of its record, and the call itself asks
nothing but the network between reading and writing: it was another's (`Session.refused_truly`).
-/

namespace SealedCustody

open Lifecycle

/-- Whether the error is about where a request stands. -/
def Error.isLifecycle : Error → Bool
  | notFound _ | invalidTransition .. | conflict .. => true
  | _ => false

namespace Store

/-- Why an access to a request is refused, in the store that refuses it: the request is not there, it
is decided, or it is pending at another revision than the one presented. Other errors are not about
where the request stands. -/
inductive Refuses (s : Store) (id : String) (presented : Option UInt64) : Error → Prop where
  | absent (free : s.requests.get? id = none) : Refuses s id presented (missing id)
  | decided {stored : VerificationRequest} {target : RequestStatus}
      (found : s.requests.get? id = some stored) (terminal : stored.status.isTerminal = true) :
      Refuses s id presented (.invalidTransition id stored.status target)
  | overtaken {stored : VerificationRequest} {revision : UInt64}
      (found : s.requests.get? id = some stored) (pending : stored.status = .pending)
      (given : presented = some revision) (stale : stored.revision ≠ revision) :
      Refuses s id presented (.conflict id revision stored.revision)
  | other {e : Error} (unrelated : e.isLifecycle = false) : Refuses s id presented e

theorem isTerminal_iff (a : RequestStatus) : a.isTerminal = true ↔ a ≠ .pending := by
  cases a <;> decide

theorem nextRevision_error {r : VerificationRequest} {e : Error} (h : r.nextRevision = .error e) :
    e.isLifecycle = false := by
  unfold VerificationRequest.nextRevision at h
  split at h
  · cases h
  · cases h
    rfl

/-- A request is refused a status to decide it only if it is decided already. -/
theorem checkTransition_error {r : VerificationRequest} {next : RequestStatus} {e : Error}
    (h : r.checkTransition next = .error e) (final : next ≠ .pending) :
    r.status.isTerminal = true ∧ e = .invalidTransition r.id r.status next := by
  unfold VerificationRequest.checkTransition at h
  split at h
  · cases h
  · rename_i hbecome
    cases h
    rw [isTerminal_iff]
    exact ⟨fun pending => hbecome ((canBecome_iff _ _).2 ⟨pending, final⟩), rfl⟩

/-- A record to replace a pending one is refused as the store has it. -/
theorem refuses_of_update {s : Store} (keyed : s.Keyed) {r : VerificationRequest}
    (pending : r.status = .pending) {e : Error} (h : (s.update r).1 = .error e) :
    s.Refuses r.id (some r.revision) e := by
  unfold update at h
  split at h
  · rename_i free
    cases h
    exact .absent free
  rename_i stored found
  split at h
  · rename_i hfault
    cases h
    unfold updateFault? at hfault
    split at hfault
    · cases hfault
      exact .other rfl
    split at hfault
    · -- With a pending record presented, a status that may not change is a decided one.
      rename_i hstatus
      cases hfault
      have terminal : stored.status.isTerminal = true := by
        rw [isTerminal_iff]
        intro hpending
        rcases hstatus.1 with hne | hterminal
        · exact hne (hpending.trans pending.symm)
        · exact (isTerminal_iff _).1 hterminal hpending
      rw [show stored.id = r.id from keyed r.id stored found]
      exact .decided found terminal
    rename_i hstatus
    split at hfault
    · rename_i hrevision
      cases hfault
      refine .overtaken found ?_ rfl hrevision
      by_contra hdecided
      have hstay : stored.status.canBecome r.status = false := by
        rw [Bool.eq_false_iff, ne_eq, canBecome_iff]
        exact fun hbecome => hdecided hbecome.1
      exact hstatus ⟨Or.inr ((isTerminal_iff _).2 hdecided), hstay⟩
    · cases hfault
  split at h
  · rename_i hnext
    cases h
    exact .other (nextRevision_error hnext)
  · cases h

/-- A status to decide a pending request is refused as the store has it. -/
theorem refuses_of_compareAndSet {s : Store} {id : String} {revision : UInt64}
    {next : RequestStatus} {now : Instant} (final : next ≠ .pending) {e : Error}
    (h : (s.compareAndSet id .pending revision next now).1 = .error e) :
    s.Refuses id (some revision) e := by
  unfold compareAndSet at h
  split at h
  · rename_i free
    cases h
    exact .absent free
  rename_i stored found
  split at h
  · rename_i hstatus
    cases h
    exact .decided found ((isTerminal_iff _).2 hstatus)
  rename_i hstatus
  have pending : stored.status = .pending := not_not.1 hstatus
  split at h
  · rename_i hrevision
    cases h
    exact .overtaken found pending rfl hrevision
  split at h
  · rename_i hmove
    cases h
    unfold VerificationRequest.transition at hmove
    split at hmove
    · rename_i hcheck
      exact absurd pending ((isTerminal_iff _).1 (checkTransition_error hcheck final).1)
    · cases hnext : stored.nextRevision with
      | ok revision' => rw [hnext] at hmove; cases hmove
      | error e' =>
        rw [hnext] at hmove
        cases hmove
        exact .other (nextRevision_error hnext)
  · cases h

/-- The store answers no round. -/
theorem reply_ne_outcome {s s' : Store} {now : Instant} {a : Access} {reply : Reply}
    (h : s.perform now a = (some reply, s')) (result : Except Error Outcome) :
    reply ≠ .outcome result := by
  rintro rfl
  cases a with
  | _ => cases h

end Store

namespace Lifecycle

open Store (Visit)

/-! ## What a call is about -/

/-- The request that a demand decides, withdraws or amends. An amendment to a decided status is
refused whatever is stored. -/
def Demand.subject? : Demand → Option String
  | resolve id _ | cancel id | amend id _ .pending | amend id _ .cancelled => some id
  | _ => none

/-- The request that a call is about. -/
def Call.subject? : Call → Option String
  | reading id _ | dispatching id _ | committing id _ _ _ | updating id _ _ => some id
  | _ => none

/-- The revision that a call presents with its write. -/
def Call.presented? : Call → Option UInt64
  | committing _ current _ _ => some current.revision
  | updating _ record _ => some record.revision
  | _ => none

/-- A call that writes presents the revision that it has last read. -/
theorem Call.Informed.lastRead {vs : List Visit} {call : Call} (h : call.Informed vs) {id : String}
    (about : call.subject? = some id) {revision : UInt64}
    (presented : call.presented? = some revision) :
    ∃ seen, LastRead vs id seen ∧ seen.revision = revision := by
  cases call with
  | committing k current next outcome =>
    cases about
    cases presented
    exact ⟨current, h, rfl⟩
  | updating k record status =>
    cases about
    cases presented
    obtain ⟨seen, hread, hrevision⟩ := h
    exact ⟨seen, hread, hrevision.symm⟩
  | _ => cases presented

theorem Demand.final_of_target? {d : Demand} {id : String} {next : RequestStatus}
    (h : d.target? = some (id, next)) : next ≠ .pending := by
  cases d with
  | resolve k decision => cases h; cases decision <;> decide
  | cancel k => cases h; decide
  | amend k criteria status => cases status <;> cases h; decide
  | create => cases h

theorem Demand.subject?_of_purpose? {d : Demand} {id k : String} {purpose : Purpose}
    (h : d.subject? = some id) (first : d.purpose? = some (k, purpose)) : k = id := by
  cases d with
  | resolve => cases h; cases first; rfl
  | cancel => cases h; cases first; rfl
  | amend _ _ status => cases status <;> cases h <;> cases first <;> rfl
  | create => cases h

theorem Demand.subject?_of_target? {d : Demand} {id k : String} {next : RequestStatus}
    (h : d.subject? = some id) (aim : d.target? = some (k, next)) : k = id := by
  cases d with
  | resolve => cases h; cases aim; rfl
  | cancel => cases h; cases aim; rfl
  | amend _ _ status => cases status <;> cases h <;> cases aim; rfl
  | create => cases h

/-- A call is about the request that is demanded. -/
theorem Demand.Leads.subject? {d : Demand} {call : Call} (h : d.Leads call) {id : String}
    (about : d.subject? = some id) {a : Access} (asked : call.access? = some a) :
    call.subject? = some id := by
  cases h with
  | creating => cases about
  | reading first => rw [Call.subject?, Demand.subject?_of_purpose? about first]
  | dispatching named pending => exact about
  | committing aim named pending => rw [Call.subject?, Demand.subject?_of_target? about aim]
  | updating named pending amended valid undecided =>
    rcases undecided with rfl | rfl <;> exact about
  | withdrawing => exact about
  | done => cases asked

/-! ## Where calls are refused -/

/-- A call that has just read its request is refused as the store has it. -/
theorem Call.refused_of_afterRead {s : Store} {id : String} {current : VerificationRequest}
    (found : s.requests.get? id = some current) (named : current.id = id) {purpose : Purpose}
    (undecided : ∀ criteria status, purpose = .amend criteria status →
      status ≠ .accepted ∧ status ≠ .rejected) {now : Instant} {e : Error}
    (h : afterRead id current now purpose = .done (.error e)) : s.Refuses id none e := by
  have htransition {next : RequestStatus} (final : next ≠ .pending) {e' : Error}
      (hcheck : current.checkTransition next = .error e') : s.Refuses id none e' := by
    obtain ⟨terminal, rfl⟩ := Store.checkTransition_error hcheck final
    rw [named]
    exact .decided found terminal
  cases purpose with
  | resolve decision =>
    simp only [afterRead] at h
    split at h
    · rename_i hcheck
      cases h
      exact htransition (by cases decision <;> decide) hcheck
    · split at h <;> cases h
  | cancel =>
    simp only [afterRead] at h
    split at h
    · rename_i hcheck
      cases h
      exact htransition (by decide) hcheck
    · cases h
  | amend criteria status =>
    obtain ⟨haccepted, hrejected⟩ := undecided criteria status rfl
    simp only [afterRead] at h
    split at h
    · rename_i hstate
      cases h
      rcases hstate with hdecided | rfl | rfl
      · exact .decided found ((Store.isTerminal_iff _).2 hdecided)
      · exact absurd rfl haccepted
      · exact absurd rfl hrejected
    · split at h
      · cases h
        exact .other rfl
      · cases h

/-- A call that is refused where it reads its request is refused as the store has it. -/
theorem Call.refused_of_reading {d : Demand} {id : String} {purpose : Purpose} {v : Visit}
    (leads : d.Leads (.reading id purpose)) (about : d.subject? = some id)
    (asked : (reading id purpose).access? = some v.access) (served : v.Served)
    (keyed : v.before.Keyed) {now : Instant} {e : Error}
    (h : ((reading id purpose).resume now v.reply).1 = .done (.error e)) :
    v.after = v.before ∧ v.before.Refuses id none e := by
  have hreply := Call.reply_of_reading asked served
  refine ⟨served.unchanged (by rw [Visit.written?, hreply]), ?_⟩
  rw [hreply] at h
  cases hget : v.before.get (.byId id) with
  | error e' =>
    -- A filter by an id is not an empty one.
    unfold Store.get at hget
    rw [if_neg (by simp [RequestFilter.byId, RequestFilter.isEmpty])] at hget
    cases hget
  | ok rs =>
    rw [hget] at h
    cases rs with
    | nil =>
      cases h
      refine .absent ?_
      by_contra hfound
      obtain ⟨r, hr⟩ := Option.ne_none_iff_exists'.1 hfound
      obtain ⟨rest, hrest⟩ := keyed.get_byId hr
      rw [hget] at hrest
      cases hrest
    | cons current rest =>
      obtain ⟨hid, key, hkey⟩ := Store.mem_get_byId hget List.mem_cons_self
      obtain rfl : key = id := (keyed key current hkey).symm.trans hid
      refine Call.refused_of_afterRead hkey hid ?_ h
      rintro criteria status rfl
      cases leads with
      | reading first =>
        cases d with
        | amend k' criteria' status' =>
          cases first
          cases status <;> cases about <;> decide
        | _ => cases first

/-- A call that is refused where it replaces the record is refused as the store has it. -/
theorem Call.refused_of_updating {id : String} {record : VerificationRequest}
    {status : RequestStatus} {v : Visit} (named : record.id = id)
    (pending : record.status = .pending)
    (asked : (updating id record status).access? = some v.access) (served : v.Served)
    (keyed : v.before.Keyed) {now : Instant} {e : Error}
    (h : ((updating id record status).resume now v.reply).1 = .done (.error e)) :
    v.after = v.before ∧ v.before.Refuses id (some record.revision) e := by
  subst named
  have haccess : v.access = .update record := (Option.some.inj asked).symm
  cases served with
  | network => cases haccess
  | @store s s' now' access reply performed =>
    obtain rfl : access = _ := haccess
    rw [Store.perform_update, Prod.mk.injEq, Option.some.injEq] at performed
    obtain ⟨rfl, rfl⟩ := performed
    rcases Store.update_cases s record with ⟨r', -, hok⟩ | ⟨e', he⟩
    · dsimp only at h
      rw [hok, resume] at h
      split at h <;> cases h
    · dsimp only at h ⊢
      rw [he] at h
      cases h
      refine ⟨by rw [he], Store.refuses_of_update keyed pending ?_⟩
      rw [he]

/-- A call that is refused where it commits is refused as the store has it. -/
theorem Call.refuses_of_committing {id : String} {current : VerificationRequest}
    {next : RequestStatus} {outcome : Option Outcome} {v : Visit} (final : next ≠ .pending)
    (pending : current.status = .pending)
    (asked : (committing id current next outcome).access? = some v.access) (served : v.Served)
    {now : Instant} {e : Error}
    (h : ((committing id current next outcome).resume now v.reply).1 = .done (.error e)) :
    v.after = v.before ∧ v.before.Refuses id (some current.revision) e := by
  obtain ⟨e', hrefused, hsame, hcall⟩ := Call.refused_of_committing asked served now
    fun x hx => by rw [h] at hx; cases hx
  rw [h] at hcall
  cases hcall
  have haccess : v.access = .compareAndSet id .pending current.revision next := by
    rw [← Option.some.inj asked, pending]
  refine ⟨hsame, ?_⟩
  cases served with
  | network => cases haccess
  | @store s s' now' access reply performed =>
    obtain rfl : access = _ := haccess
    obtain rfl : reply = _ := hrefused
    rw [Store.perform_compareAndSet, Prod.mk.injEq, Option.some.injEq] at performed
    exact Store.refuses_of_compareAndSet final (Reply.request.inj performed.1)

/-- Wherever a call on a request is refused, it is refused as the store has it, and has changed
nothing there. -/
theorem Call.refused {d : Demand} {call : Call} {v : Visit} (leads : d.Leads call) {id : String}
    (about : d.subject? = some id) (asked : call.access? = some v.access) (served : v.Served)
    (keyed : v.before.Keyed)
    (round : ∀ e, v.reply = .outcome (.error e) → e.isLifecycle = false) {now : Instant} {e : Error}
    (h : (call.resume now v.reply).1 = .done (.error e)) :
    v.after = v.before ∧ v.before.Refuses id call.presented? e := by
  have hsubject := leads.subject? about asked
  cases call with
  | creating r => cases hsubject
  | done result => cases asked
  | reading k purpose =>
    obtain rfl : k = id := Option.some.inj hsubject
    exact Call.refused_of_reading leads about asked served keyed h
  | dispatching k current =>
    have hreply := served.reply_eq
    rw [← Option.some.inj asked] at hreply
    obtain ⟨result, hr⟩ := hreply
    refine ⟨served.unchanged (by rw [Visit.written?, hr]), .other ?_⟩
    rw [hr] at h
    cases result with
    | ok o => cases h
    | error e' =>
      cases h
      exact round e hr
  | committing k current next outcome =>
    obtain rfl : k = id := Option.some.inj hsubject
    obtain ⟨aim, -, pending⟩ := leads.of_committing
    exact Call.refuses_of_committing (Demand.final_of_target? aim) pending asked served h
  | updating k record status =>
    obtain rfl : k = id := Option.some.inj hsubject
    obtain ⟨-, named, pending⟩ := leads.of_updating
    exact Call.refused_of_updating named pending asked served keyed h

/-- A demand on a request starts with reading it. -/
theorem Demand.call_of_subject? {d : Demand} {id : String} (about : d.subject? = some id) :
    ∃ purpose, d.call = .reading id purpose := by
  cases d with
  | create => cases about
  | resolve k decision => cases about; exact ⟨_, rfl⟩
  | cancel k => cases about; exact ⟨_, rfl⟩
  | amend k criteria status => cases status <;> cases about <;> exact ⟨_, rfl⟩

namespace Session

/-! ## The rounds of a session -/

/-- What a round was answered with is what the network was to answer. -/
theorem answer_mem_of_visited {w : Session} {moves : List Move} {j : Nat} {v : Visit}
    (h : (j, v) ∈ (w.run moves).visits) {result : Except Error Outcome}
    (replied : v.reply = .outcome result) : (j, v) ∈ w.visits ∨ Move.answer j result ∈ moves := by
  induction moves generalizing w with
  | nil => exact Or.inl h
  | cons m rest ih =>
    rcases ih (show (j, v) ∈ ((w.move m).run rest).visits from h) with hmove | hrest
    · cases m with
      | demand d => exact Or.inl hmove
      | resume i now =>
        simp only [move] at hmove
        split at hmove <;> exact Or.inl hmove
      | access i now =>
        simp only [move] at hmove
        split at hmove
        · split at hmove
          · split at hmove
            · rename_i performed
              rcases List.mem_append.1 hmove with hold | hnew
              · exact Or.inl hold
              · cases List.mem_singleton.1 hnew
                exact absurd replied (Store.reply_ne_outcome performed result)
            · exact Or.inl hmove
          · exact Or.inl hmove
        · exact Or.inl hmove
      | answer i result' =>
        simp only [move] at hmove
        split at hmove
        · rcases List.mem_append.1 hmove with hold | hnew
          · exact Or.inl hold
          · cases List.mem_singleton.1 hnew
            cases replied
            exact Or.inr List.mem_cons_self
        · exact Or.inl hmove
    · exact Or.inr (List.mem_cons_of_mem _ hrest)

/-! ## Refused calls -/

/-- Between the last reading of a request by a task, at a revision, and a later visit of the task,
another task replaced the record of the request. -/
def ReplacedBefore (w : Session) (i : Nat) (failing : Visit) (id : String) (revision : UInt64) :
    Prop :=
  ∃ past read seen between rest,
    w.visits = past ++ (i, read) :: (between ++ (i, failing) :: rest) ∧ read.Reads id seen ∧
      seen.revision = revision ∧ (∀ v, (i, v) ∈ between → ∃ r, v.access = .dispatch r) ∧
      ∃ j u, (j, u) ∈ between ∧ j ≠ i ∧ u.Replaces id

/-- A task that presents a revision that is no longer that of a pending request was overtaken by
another task. -/
theorem replacedBefore_of_stale {s : Store} (keyed : s.Keyed) (moves : List Move) {i : Nat}
    {earlier : List Visit} {failing : Visit}
    (hvisits : ((start s).run moves).visitsOf i = earlier ++ [failing]) {id : String}
    {seen stored : VerificationRequest} (hread : LastRead earlier id seen)
    (found : failing.before.requests.get? id = some stored) (pending : stored.status = .pending)
    (stale : stored.revision ≠ seen.revision) :
    ((start s).run moves).ReplacedBefore i failing id seen.revision := by
  obtain ⟨before, read, later, rfl, hreads, hlater⟩ := hread
  obtain ⟨past, between, rest, hall, hown, -⟩ := exists_between hvisits
  refine ⟨past, read, seen, between, rest, hall, hreads, rfl,
    fun v hv => hlater v (hown v hv), ?_⟩
  have history := history_run s moves
  rw [hall, List.map_append, List.map_cons, List.map_append, List.map_cons] at history
  obtain ⟨m, -, fromRead⟩ := history.split
  obtain ⟨rfl, servedRead, afterRead⟩ := fromRead.cons_inv
  obtain ⟨m', hbetween, fromFailing⟩ := afterRead.split
  obtain ⟨rfl, -, -⟩ := fromFailing.cons_inv
  have hkeyed : read.before.Keyed :=
    (keyed_run keyed moves).2 (i, read) (by rw [hall]; simp)
  obtain ⟨hseen, hsame⟩ := hreads.stored servedRead hkeyed
  obtain ⟨u, hu, hreplaces⟩ := hbetween.replaced (hsame ▸ hseen) found pending
    (fun heq => stale (heq ▸ rfl))
  obtain ⟨⟨j, u'⟩, hmem, rfl⟩ := List.mem_map.1 hu
  refine ⟨j, u', hmem, ?_, hreplaces⟩
  -- The task itself has asked nothing but the network in between.
  rintro rfl
  obtain ⟨r, hdispatch⟩ := hlater u' (hown u' hmem)
  obtain ⟨record, r', hupdate, -⟩ := hreplaces
  rw [hdispatch] at hupdate
  cases hupdate

/-- What an error that a call on a request has failed with says is true. The last access of the call has
changed nothing, and in the store of that access a request that is not found is not stored; one that may
not move is decided, with the status that the error tells; and one in conflict is pending, at another
revision than the call has last read, and since then another call has replaced its record. -/
def TellsTrue (ss : Session) (i : Nat) (id : String) (e : Error) : Prop :=
  ∃ earlier failing, ss.visitsOf i = earlier ++ [failing] ∧
    failing.after = failing.before ∧
    match e with
    | .notFound what =>
      what = "request " ++ id ∧ failing.before.requests.get? id = none
    | .invalidTransition k source _ =>
      k = id ∧ ∃ r, failing.before.requests.get? id = some r ∧ r.status.isTerminal = true ∧
        source = r.status
    | .conflict k expected actual =>
      k = id ∧ (∃ r, failing.before.requests.get? id = some r ∧ r.status = .pending ∧
        actual = r.revision ∧ actual ≠ expected) ∧
        ss.ReplacedBefore i failing id expected
    | _ => True

theorem tellsTrue_of_failed {s : Store} (keyed : s.Keyed) {moves : List Move}
    (rounds : ∀ j e, Move.answer j (.error e) ∈ moves → e.isLifecycle = false) {i : Nat} {t : Task}
    (found : ((start s).run moves).tasks[i]? = some t) {id : String}
    (about : t.demand.subject? = some id) {e : Error} (failed : t.call = .done (.error e)) :
    ((start s).run moves).TellsTrue i id e := by
  have course := (sound_run s moves).course i t found
  rw [course.reply_eq_none (by rw [failed]; rfl)] at course
  rcases course.idle_cases with ⟨-, hstart⟩ | ⟨earlier, call, failing, now, hvisits, idle, asked,
    served, hcall⟩
  · obtain ⟨purpose, hreading⟩ := Demand.call_of_subject? about
    rw [failed, hreading] at hstart
    cases hstart
  have hmem : (i, failing) ∈ ((start s).run moves).visits :=
    mem_visitsOf.1 (hvisits ▸ List.mem_concat_self)
  have round (e : Error) (he : failing.reply = .outcome (.error e)) : e.isLifecycle = false := by
    rcases answer_mem_of_visited hmem he with hold | hmove
    · cases hold
    · exact rounds i e hmove
  have hkeyed : failing.before.Keyed := (keyed_run keyed moves).2 _ hmem
  obtain ⟨hsame, hrefuses⟩ :=
    Call.refused idle.leads about asked served hkeyed round (hcall.symm.trans failed)
  refine ⟨earlier, failing, hvisits, hsame, ?_⟩
  cases hrefuses with
  | absent free => exact ⟨rfl, free⟩
  | decided hstored terminal => exact ⟨rfl, _, hstored, terminal, rfl⟩
  | overtaken hstored pending given stale =>
    obtain ⟨seen, hread, rfl⟩ :=
      idle.informed.lastRead (idle.leads.subject? about asked) given
    exact ⟨rfl, ⟨_, hstored, pending, rfl, stale⟩,
      replacedBefore_of_stale keyed moves hvisits hread hstored pending stale⟩
  | other unrelated => cases e <;> trivial

/-- **A refusal tells the truth.** However calls interleave, if a call to decide, withdraw or amend a
request has failed, what the error says of the request is so where the call failed. The errors of the
network are not about where a request stands. -/
theorem refused_truly (s : Store) (keyed : s.Keyed) (moves : List Move)
    (rounds : ∀ j e, Move.answer j (.error e) ∈ moves → e.isLifecycle = false) (i : Nat) (t : Task)
    (found : ((start s).run moves).tasks[i]? = some t) (id : String)
    (about : t.demand.subject? = some id) (e : Error) (failed : t.call = .done (.error e)) :
    ((start s).run moves).TellsTrue i id e :=
  tellsTrue_of_failed keyed rounds found about failed

/-- A request is amended while the network is asked whether to accept it. -/
def amending : List Move :=
  [.demand (.create "r1" "p1" "u1" "Acme" default default), .access 0 default, .resume 0 default,
    .demand (.resolve "r1" .accept), .access 1 default, .resume 1 default,
    .demand (.amend "r1" ⟨some "adults", [], []⟩ .pending), .access 2 default, .resume 2 default,
    .access 2 default, .answer 1 (.ok default), .resume 1 default, .access 1 default,
    .resume 1 default]

/-- The acceptance of a request that is amended meanwhile fails with a conflict, and does so because
of the amendment. -/
theorem refused_truly_of_amending :
    ((start .empty).run amending).tasks[1]? =
        some ⟨.resolve "r1" .accept, .done (.error (.conflict "r1" 0 1)), none⟩ ∧
      ∃ failing, ((start .empty).run amending).ReplacedBefore 1 failing "r1" 0 := by
  have found : ((start .empty).run amending).tasks[1]? =
      some ⟨.resolve "r1" .accept, .done (.error (.conflict "r1" 0 1)), none⟩ := by cbv
  have rounds (j : Nat) (e : Error) (h : Move.answer j (.error e) ∈ amending) :
      e.isLifecycle = false := by simp [amending] at h
  obtain ⟨-, failing, -, -, -, -, hreplaced⟩ :=
    refused_truly .empty Store.keyed_empty amending rounds 1 _ found "r1" rfl _ rfl
  exact ⟨found, failing, hreplaced⟩

end Session

end Lifecycle

end SealedCustody
