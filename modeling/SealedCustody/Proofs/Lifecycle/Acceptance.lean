import SealedCustody.Proofs.Lifecycle.Session
import Mathlib

/-!
# What is accepted is what the network was asked about

A call that accepts a request reads it, asks the network, and commits. Between any two of these
steps others may amend the request, withdraw it or decide it, so what is stored at the commit need
not be what the network was asked about. `Session.accepted_as_asked` says that a request is never
accepted in another form than the one that a round was answered on.

## Shape of the proof

A call in flight holds a snapshot of the request that it read, and the store holds a later version
of it (`Session.Vouched.snapshot`). A commit succeeds only on the revision of its snapshot, and two
versions of one revision are the same record. What is left is a fact about one call on its own: a
call that commits an acceptance has had its round on its snapshot answered
(`Course.asked_of_accepting`).
-/

namespace SealedCustody.Lifecycle

open Store (Visit Writes mem_get_byId)

/-- A call about to commit an acceptance has asked the network about the request that it read, and
has been answered. -/
theorem Course.asked_of_accepting {d : Demand} {vs : List Visit} {call : Call}
    {reply? : Option Reply} (h : Course d vs call reply?) {id : String}
    {current : VerificationRequest} {outcome : Option Outcome}
    (accepting : call = .committing id current .accepted outcome) :
    ∃ v ∈ vs, ∃ o, v.access = .dispatch current ∧ v.reply = .outcome (.ok o) := by
  induction h with
  | start =>
    rcases d.call_cases with ⟨e, he⟩ | ⟨r, hr⟩ | ⟨k, purpose, hk⟩
    · rw [he] at accepting; cases accepting
    · rw [hr] at accepting; cases accepting
    · rw [hk] at accepting; cases accepting
  | visit before asked served ih =>
    obtain ⟨u, hu, answered⟩ := ih accepting
    exact ⟨u, List.mem_append_left _ hu, answered⟩
  | @resume us call reply now before ih =>
    have hresumed := before.resumed now
    rw [accepting] at hresumed
    generalize hcall : Call.committing id current .accepted outcome = call' at hresumed
    generalize (call.resume now reply).2 = events at hresumed
    -- Only an answered round leads to an acceptance; the other ways end the call or commit less.
    cases hresumed with
    | dispatched =>
      cases hcall
      obtain ⟨us', v, rfl, -, asked, served, hreply⟩ := before.exists_last
      refine ⟨v, List.mem_concat_self, _, ?_, hreply⟩
      exact (Option.some.inj asked).symm
    | @read k purpose current' rest named =>
      rcases Call.afterRead_cases k current' now purpose with
        ⟨e, he⟩ | hd | ⟨next, hnext, hc⟩ | ⟨record, status, hu⟩
      · rw [he] at hcall; cases hcall
      · rw [hd] at hcall; cases hcall
      · rw [hc] at hcall
        cases hcall
        exact absurd rfl hnext
      · rw [hu] at hcall; cases hcall
    | created => cases hcall
    | committed => cases hcall
    | amended kept => cases hcall
    | withdrawing => cases hcall
    | failed refused silent => cases hcall

/-- What a task has read and goes on with, and under what id. -/
def Task.snapshot? (t : Task) : Option (String × VerificationRequest) :=
  match t.call, t.reply with
  | .reading id _, some (.requests (.ok (current :: _))) => some (id, current)
  | .dispatching id current, _ => some (id, current)
  | .committing id current _ _, _ => some (id, current)
  | _, _ => none

/-- Taking a reply gives no other snapshot than the one that was held. -/
theorem Task.snapshot?_resumed {d : Demand} {call call' : Call} {reply : Reply}
    {events : List Event} {now : Instant} (h : Call.Resumed now call reply call' events)
    {p : String × VerificationRequest} (hp : Task.snapshot? ⟨d, call', none⟩ = some p) :
    Task.snapshot? ⟨d, call, some reply⟩ = some p := by
  cases h with
  | @read id purpose current rest named =>
    rcases Call.afterRead_cases id current now purpose with
      ⟨e, he⟩ | hd | ⟨next, -, hc⟩ | ⟨record, status, hu⟩
    · rw [he] at hp; cases hp
    · rw [hd] at hp; exact hp
    · rw [hc] at hp; exact hp
    · rw [hu] at hp; cases hp
  | dispatched => exact hp
  | created => cases hp
  | committed => cases hp
  | amended kept => cases hp
  | withdrawing => cases hp
  | failed refused silent => cases hp

/-- Only a demand to accept a request aims at its acceptance. -/
theorem Demand.eq_resolve_of_target? {d : Demand} {id : String}
    (h : d.target? = some (id, .accepted)) :
    d = .resolve id .accept := by
  cases d with
  | resolve k decision =>
    cases decision with
    | accept => cases h; rfl
    | reject => cases h
  | amend k criteria status => cases status <;> cases h
  | create => cases h
  | cancel k => cases h

namespace Session

/-! ## What the network was asked -/

/-- A call to accept the request has asked the network about this version of it and was answered. -/
def Answered (w : Session) (asked : VerificationRequest) : Prop :=
  ∃ i t v o, w.tasks[i]? = some t ∧ t.demand = .resolve asked.id .accept ∧ (i, v) ∈ w.visits ∧
    v.access = .dispatch asked ∧ v.reply = .outcome (.ok o)

/-- The request is what a round was answered on, with nothing written in between. -/
def Backed (w : Session) (r : VerificationRequest) : Prop :=
  ∃ asked, w.Answered asked ∧ r.id = asked.id ∧ r.requesterId = asked.requesterId ∧
    r.subjectId = asked.subjectId ∧ r.criteria = asked.criteria ∧ r.revision = asked.revision + 1

theorem Grows.backed {w w' : Session} (h : w.Grows w') {r : VerificationRequest} (hr : w.Backed r) :
    w'.Backed r := by
  obtain ⟨asked, ⟨i, t, v, o, ht, hd, hv, answered⟩, same⟩ := hr
  obtain ⟨t', ht', hd'⟩ := h.1 i t ht
  exact ⟨asked, ⟨i, t', v, o, ht', hd'.trans hd, h.2 _ hv, answered⟩, same⟩

/-- A task about to commit an acceptance has had its round answered. -/
theorem Sound.answered_of_accepting {w : Session} (h : w.Sound) {i : Nat} {t : Task}
    (found : w.tasks[i]? = some t) {id : String} {current : VerificationRequest}
    {outcome : Option Outcome} (accepting : t.call = .committing id current .accepted outcome) :
    w.Answered current := by
  have course := h.course i t found
  obtain ⟨v, hv, o, hdispatch, hreply⟩ := course.asked_of_accepting accepting
  have hleads := course.leads
  rw [accepting] at hleads
  obtain ⟨aim, rfl, -⟩ := hleads.of_committing
  exact ⟨i, t, v, o, found, Demand.eq_resolve_of_target? aim, mem_visitsOf.1 hv, hdispatch, hreply⟩

/-! ## The invariant -/

/-- What was accepted since the start is backed, and every task in flight has read a version of what
is stored. -/
structure Vouched (s : Store) (w : Session) : Prop where
  keyed : w.store.Keyed
  snapshot : ∀ (i : Nat) (t : Task) (id : String) (r : VerificationRequest), w.tasks[i]? = some t →
    t.snapshot? = some (id, r) → ∃ now, w.store.requests.get? id = some now ∧ r.Evolves now
  accepted : ∀ (id : String) (r : VerificationRequest), w.store.requests.get? id = some r →
    r.status = .accepted → s.requests.get? id = some r ∨ w.Backed r

theorem vouched_start {s : Store} (keyed : s.Keyed) : (start s).Vouched s where
  keyed := keyed
  snapshot := by intro i t id r ht; cases ht
  accepted := fun id r hr _ => Or.inl hr

/-- A write that a task carries out stores an acceptance only if that is backed. -/
theorem Vouched.backed_of_writes {s s' : Store} {w : Session} (h : w.Vouched s) (sound : w.Sound)
    {i : Nat} {t : Task} (found : w.tasks[i]? = some t) {a : Access}
    (asked : t.call.access? = some a) {r : VerificationRequest} (writes : Writes w.store a r s')
    (accepted : r.status = .accepted) : w.Backed r := by
  have hleads := (sound.course i t found).leads
  rcases Call.writes_cases asked writes with
    ⟨hcall, -⟩ | ⟨id, record, status, stored, hcall, -, -, -, -, -, -, rfl, -⟩ |
    ⟨id, current, next, outcome, stored, now, hcall, hstored, -, -, hrev, rfl, -⟩
  · rw [hcall] at hleads
    rw [hleads.pending_of_creating] at accepted
    cases accepted
  · rw [hcall] at hleads
    have pending := hleads.of_updating.2.2
    rw [show record.status = .accepted from accepted] at pending
    cases pending
  · obtain rfl : next = .accepted := accepted
    have hsnapshot : t.snapshot? = some (id, current) := by
      rw [Task.snapshot?, hcall]
    obtain ⟨r', hr', hevolves⟩ := h.snapshot i t id current found hsnapshot
    rw [hstored] at hr'
    cases hr'
    -- The commit found the revision that was read, so it found the record that was read.
    obtain rfl := hevolves.eq_of_revision hrev.symm
    exact ⟨current, sound.answered_of_accepting found hcall, rfl, rfl, rfl, rfl, rfl⟩

theorem Vouched.demanded {s : Store} {w : Session} (h : w.Vouched s) (d : Demand) :
    (w.demanded d).Vouched s where
  keyed := h.keyed
  snapshot := by
    intro i t id r ht hsnapshot
    rcases getElem?_demanded_cases ht with hold | ⟨-, rfl⟩
    · exact h.snapshot i t id r hold hsnapshot
    · rcases d.call_cases with ⟨e, he⟩ | ⟨r', hr'⟩ | ⟨k, purpose, hk⟩
      · rw [he] at hsnapshot; cases hsnapshot
      · rw [hr'] at hsnapshot; cases hsnapshot
      · rw [hk] at hsnapshot; cases hsnapshot
  accepted := by
    intro id r hr haccepted
    rcases h.accepted id r hr haccepted with hstart | hbacked
    · exact Or.inl hstart
    · exact Or.inr ((Step.demanded d).grows.backed hbacked)

theorem Vouched.resumed {s : Store} {w : Session} (h : w.Vouched s) (sound : w.Sound) {i : Nat}
    {t : Task} {reply : Reply} (now : Instant) (found : w.tasks[i]? = some t)
    (replied : t.reply = some reply) : (w.resumed i t reply now).Vouched s where
  keyed := h.keyed
  snapshot := by
    intro j t' id r ht' hsnapshot
    rcases getElem?_set_cases ht' with ⟨rfl, rfl⟩ | ⟨-, hold⟩
    · have hresumed := (replied ▸ sound.course i t found).resumed now
      refine h.snapshot i t id r found ?_
      have hheld := Task.snapshot?_resumed hresumed hsnapshot
      rw [← replied] at hheld
      exact hheld
    · exact h.snapshot j t' id r hold hsnapshot
  accepted := by
    intro id r hr haccepted
    rcases h.accepted id r hr haccepted with hstart | hbacked
    · exact Or.inl hstart
    · exact Or.inr ((Step.resumed now found replied).grows.backed hbacked)

/-- What a task holds after a visit it held before, or has just read. -/
theorem Vouched.snapshot_visited {s : Store} {w : Session} (h : w.Vouched s) {i : Nat} {t : Task}
    {v : Visit} (found : w.tasks[i]? = some t) (asked : t.call.access? = some v.access)
    (served : v.Served) (before : v.before = w.store) {id : String} {r : VerificationRequest}
    (hsnapshot : Task.snapshot? { t with reply := some v.reply } = some (id, r)) :
    ∃ now, v.after.requests.get? id = some now ∧ r.Evolves now := by
  have hlater : w.store.Later v.after := before ▸ served.later
  obtain ⟨d, call, reply?⟩ := t
  have hheld (hold : Task.snapshot? ⟨d, call, reply?⟩ = some (id, r)) :
      ∃ now, v.after.requests.get? id = some now ∧ r.Evolves now := by
    obtain ⟨r', hr', hevolves⟩ := h.snapshot i _ id r found hold
    obtain ⟨r'', hr'', hevolves'⟩ := hlater id r' hr'
    exact ⟨r'', hr'', hevolves.trans hevolves'⟩
  cases call with
  | reading k purpose =>
    rw [Call.reply_of_reading asked served] at hsnapshot
    cases hget : v.before.get (.byId k) with
    | error e => rw [hget] at hsnapshot; cases hsnapshot
    | ok rs =>
      rw [hget] at hsnapshot
      cases rs with
      | nil => cases hsnapshot
      | cons current rest =>
        cases hsnapshot
        obtain ⟨hid, key, hkey⟩ := mem_get_byId hget List.mem_cons_self
        rw [before] at hkey
        have hkeyed : key = id := by rw [← h.keyed key r hkey, hid]
        subst hkeyed
        obtain ⟨r', hr', hevolves⟩ := hlater key r hkey
        exact ⟨r', hr', hevolves⟩
  | dispatching k current => exact hheld hsnapshot
  | committing k current next outcome => exact hheld hsnapshot
  | creating r₀ => cases hsnapshot
  | updating k record status => cases hsnapshot
  | done result => cases asked

theorem Vouched.visited {s : Store} {w : Session} (h : w.Vouched s) (sound : w.Sound) {i : Nat}
    {t : Task} {v : Visit} (found : w.tasks[i]? = some t) (idle : t.reply = none)
    (asked : t.call.access? = some v.access) (served : v.Served) (before : v.before = w.store) :
    (w.visited i t v).Vouched s where
  keyed := served.keyed (before ▸ h.keyed)
  snapshot := by
    intro j t' id r ht' hsnapshot
    rcases getElem?_set_cases ht' with ⟨rfl, rfl⟩ | ⟨-, hold⟩
    · exact h.snapshot_visited found asked served before hsnapshot
    · obtain ⟨r', hr', hevolves⟩ := h.snapshot j t' id r hold hsnapshot
      obtain ⟨r'', hr'', hevolves'⟩ := served.later id r' (before ▸ hr')
      exact ⟨r'', hr'', hevolves.trans hevolves'⟩
  accepted := by
    intro id r hr haccepted
    -- What is stored was there before the visit, or the visit has just written it.
    have grows := (Step.visited found idle asked served before).grows
    have hold (hr : w.store.requests.get? id = some r) :
        s.requests.get? id = some r ∨ (w.visited i t v).Backed r := by
      rcases h.accepted id r hr haccepted with hstart | hbacked
      · exact Or.inl hstart
      · exact Or.inr (grows.backed hbacked)
    rcases served.writes_or_unchanged with ⟨r', -, hwrites⟩ | ⟨-, hsame⟩
    · rw [before] at hwrites
      rcases hwrites.eq_or_stored hr with rfl | hstored
      · exact Or.inr (grows.backed (h.backed_of_writes sound found asked hwrites haccepted))
      · exact hold hstored
    · refine hold ?_
      rw [← before, ← hsame]
      exact hr

theorem Vouched.step {s : Store} {w w' : Session} (h : w.Vouched s) (sound : w.Sound)
    (hs : w.Step w') : w'.Vouched s := by
  cases hs with
  | demanded d => exact h.demanded d
  | visited found idle asked served before => exact h.visited sound found idle asked served before
  | resumed now found replied => exact h.resumed sound now found replied

/-- **A request is accepted only as the network was asked about it.** However calls to create,
decide, withdraw and amend requests interleave, and whatever the network answers: a request that
stands accepted stood so at the start, or a call to accept it has had a round answered on its id,
requester, subject and criteria, at the revision that the acceptance replaced. -/
theorem accepted_as_asked (s : Store) (keyed : s.Keyed) (moves : List Move) (id : String)
    (r : VerificationRequest) (stored : ((start s).run moves).store.requests.get? id = some r)
    (accepted : r.status = .accepted) :
    s.requests.get? id = some r ∨ ((start s).run moves).Backed r := by
  have hstep (w w' : Session) (sound : w.Sound) (h : w.Vouched s) (hs : w.Step w') : w'.Vouched s :=
    h.step sound hs
  have hvouched : ((start s).run moves).Vouched s :=
    (run_keeps hstep (sound_start s) (vouched_start keyed) moves).2
  exact hvouched.accepted id r stored accepted

/-- A request that is amended during a round is accepted in a second round, as amended. -/
theorem accepted_as_asked_of_amending :
    ((start .empty).run
      [.demand (.create "r1" "p1" "u1" "Acme" default default), .access 0 default,
        .resume 0 default, .demand (.resolve "r1" .accept), .access 1 default, .resume 1 default,
        .demand (.amend "r1" ⟨some "adults", [], []⟩ .pending), .access 2 default,
        .resume 2 default, .access 2 default, .answer 1 (.ok default), .resume 1 default,
        .access 1 default, .resume 1 default, .demand (.resolve "r1" .accept), .access 3 default,
        .resume 3 default, .answer 3 (.ok default), .resume 3 default, .access 3 default]).Backed
      ⟨"r1", "p1", "u1", "Acme", ⟨some "adults", [], []⟩, .accepted, default, default,
        2⟩ := by
  refine Or.resolve_left (accepted_as_asked .empty Store.keyed_empty _ "r1" _ ?stored rfl) ?fresh
  case stored => cbv
  case fresh => exact fun hstart => by cases hstart

end Session

end SealedCustody.Lifecycle
