import SealedCustody.Proofs.Lifecycle.Session

/-!
# A request is decided once

Any number of calls may try to accept, reject or withdraw one request. `Session.decided_once` says
that at most one of them succeeds, that what it returns stands from then on, and that its decision
is announced once, after the store has committed it.

## Shape of the proof

A task holds the decision of a request from the moment its commit is answered until it has returned.
A commit finds the request pending and leaves it decided, and a decided request stays what it is, so
no second task can come to hold the decision (`Session.Settled.alone`). An announcement is made when
the holder returns, so the announcements so far are those of a holder that has returned
(`Session.Settled.told`, `Session.Settled.quiet`).
-/

namespace SealedCustody

open Lifecycle

/-- The status that an event announces for a request, if it announces its decision. -/
def Event.resolution? (id : String) : Event → Option RequestStatus
  | .requestResolved k status => if k = id then some status else none
  | _ => none

/-- The visit found a request pending and moved its status: the record that it stored. -/
def Store.Visit.Commits (v : Store.Visit) (id : String) (r : VerificationRequest) : Prop :=
  (∃ expected revision, v.access = .compareAndSet id expected revision r.status) ∧
    v.reply = .request (.ok r) ∧ r.status ≠ .pending ∧
    (∃ old, v.before.requests.get? id = some old ∧ old.status = .pending) ∧
    v.after.requests.get? id = some r

namespace Lifecycle

open Store (Visit)

/-! ## Holding a decision -/

/-- A visit of a call about to commit does so if it is answered with a record. -/
theorem Call.commits_of_committing {id : String} {current : VerificationRequest}
    {next : RequestStatus} {outcome : Option Outcome} {v : Visit}
    (asked : (Call.committing id current next outcome).access? = some v.access) (served : v.Served)
    {r : VerificationRequest} (hreply : v.reply = .request (.ok r)) : v.Commits id r := by
  have hwritten : v.written? = some r := by
    rw [Visit.written?, hreply]
  rcases Call.writes_cases asked (served.writes hwritten) with
    ⟨hcall, -⟩ | ⟨k, record, status, stored, hcall, -⟩ |
    ⟨k, current', next', outcome', stored, now, hcall, hstored, pending, final, -, rfl, hafter⟩
  · cases hcall
  · cases hcall
  · cases hcall
    refine ⟨⟨_, _, (Option.some.inj asked).symm⟩, hreply, final, ⟨stored, hstored, pending⟩, ?_⟩
    rw [hafter, Store.get?_put, if_pos rfl]

namespace Task

/-- The task was to decide the request, has succeeded and has returned the request as decided. -/
def Decided (t : Task) (id : String) (r : VerificationRequest) : Prop :=
  ∃ next outcome, t.demand.target? = some (id, next) ∧ t.call = .done (.ok (r, outcome))

/-- The task has committed the decision of the request, whether or not it has returned yet. -/
def Holds (t : Task) (id : String) (r : VerificationRequest) : Prop :=
  (∃ current next outcome, t.call = .committing id current next outcome ∧
    t.reply = some (.request (.ok r))) ∨ t.Decided id r

/-- A task that is given a reply holds a decision if that reply answers its commit. -/
theorem commits_of_holds {d : Demand} {call : Call} {v : Visit}
    (asked : call.access? = some v.access) (served : v.Served) {id : String}
    {r : VerificationRequest} (h : Holds ⟨d, call, some v.reply⟩ id r) : v.Commits id r := by
  rcases h with ⟨current, next, outcome, hcall, hreply⟩ | ⟨next, outcome, -, hcall⟩
  · obtain rfl : call = .committing id current next outcome := hcall
    exact Call.commits_of_committing asked served (Option.some.inj hreply)
  · obtain rfl : call = .done (.ok (r, outcome)) := hcall
    cases asked

/-- A task that takes a reply either returns the decision that it held and announces it, or holds
none and announces none. -/
theorem holds_resumed {d : Demand} {call call' : Call} {reply : Reply} {events : List Event}
    {now : Instant} (leads : d.Leads call) (h : Call.Resumed now call reply call' events)
    (id : String) :
    (∃ r, Holds ⟨d, call, some reply⟩ id r ∧ Decided ⟨d, call', none⟩ id r ∧
        events.filterMap (Event.resolution? id) = [r.status]) ∨
      ((∀ r, ¬ Holds ⟨d, call', none⟩ id r) ∧ events.filterMap (Event.resolution? id) = []) := by
  -- With no reply left to take, a task holds a decision only if it has returned one.
  have hbusy (call₁ : Call) (hdone : ∀ r outcome, call₁ = .done (.ok (r, outcome)) →
      ∀ next, d.target? ≠ some (id, next)) : ∀ r, ¬ Holds ⟨d, call₁, none⟩ id r := by
    rintro r (⟨current, next, outcome, -, hreply⟩ | ⟨next, outcome, haim, hcall⟩)
    · cases hreply
    · exact hdone r outcome hcall next haim
  cases h with
  | committed =>
    rename_i k current next outcome r
    obtain ⟨haim, -, -⟩ := leads.of_committing
    by_cases hk : k = id
    · subst hk
      refine Or.inl ⟨r, Or.inl ⟨current, next, outcome, rfl, rfl⟩, ⟨next, outcome, haim, rfl⟩, ?_⟩
      simp [Event.resolution?]
    · refine Or.inr ⟨hbusy _ fun r' outcome' _ next' haim' => ?_, by simp [Event.resolution?, hk]⟩
      rw [haim] at haim'
      cases haim'
      exact hk rfl
  | created =>
    refine Or.inr ⟨hbusy _ fun r' outcome' _ next' haim' => ?_, rfl⟩
    cases leads with
    | creating requester subject valid => cases haim'
  | amended kept =>
    refine Or.inr ⟨hbusy _ fun r' outcome' _ next' haim' => ?_, rfl⟩
    cases leads with
    | updating named pending amended valid undecided =>
      rcases undecided with rfl | rfl
      · cases haim'
      · exact kept rfl
  | @read k purpose current rest named =>
    refine Or.inr ⟨hbusy _ fun r' outcome' hcall => ?_, rfl⟩
    rcases Call.afterRead_cases k current now purpose with
      ⟨e, he⟩ | hd | ⟨next, -, hc⟩ | ⟨record, status, hu⟩
    · rw [he] at hcall; cases hcall
    · rw [hd] at hcall; cases hcall
    · rw [hc] at hcall; cases hcall
    · rw [hu] at hcall; cases hcall
  | dispatched =>
    refine Or.inr ⟨hbusy _ fun r' outcome' hcall => ?_, rfl⟩
    cases hcall
  | withdrawing =>
    refine Or.inr ⟨hbusy _ fun r' outcome' hcall => ?_, rfl⟩
    cases hcall
  | failed refused silent =>
    refine Or.inr ⟨hbusy _ fun r' outcome' hcall => ?_, ?_⟩
    · cases hcall
    · rw [List.filterMap_eq_nil_iff]
      intro event hevent
      cases event with
      | requestResolved k status => exact absurd hevent (silent k status)
      | _ => rfl

/-- A task that was only just started holds nothing. -/
theorem not_holds_of_started (d : Demand) (id : String) (r : VerificationRequest) :
    ¬ Holds ⟨d, d.call, none⟩ id r := by
  rintro (⟨current, next, outcome, -, hreply⟩ | ⟨next, outcome, -, hcall⟩)
  · cases hreply
  · rcases d.call_cases with ⟨e, he⟩ | ⟨r', hr'⟩ | ⟨k, purpose, hk⟩
    · rw [show d.call = _ from hcall] at he; cases he
    · rw [show d.call = _ from hcall] at hr'; cases hr'
    · rw [show d.call = _ from hcall] at hk; cases hk

/-- A task that has returned a decision holds that one. -/
theorem Decided.eq_of_holds {t : Task} {id : String} {r x : VerificationRequest}
    (h : t.Decided id r) (hx : t.Holds id x) : x = r := by
  obtain ⟨next, outcome, -, hcall⟩ := h
  rcases hx with ⟨current, next', outcome', hcall', -⟩ | ⟨next', outcome', -, hcall'⟩
  · rw [hcall] at hcall'
    cases hcall'
  · rw [hcall] at hcall'
    cases hcall'
    rfl

/-- A task that can still make an access has not returned. -/
theorem not_decided_of_asked {t : Task} {a : Access} (asked : t.call.access? = some a)
    (id : String) (r : VerificationRequest) : ¬ t.Decided id r := by
  rintro ⟨next, outcome, -, hcall⟩
  rw [hcall] at asked
  cases asked

end Task

namespace Session

/-! ## The invariant -/

/-- The task at a place has decided the request and returned it. -/
def Decided (w : Session) (i : Nat) (id : String) (r : VerificationRequest) : Prop :=
  ∃ t, w.tasks[i]? = some t ∧ t.Decided id r

/-- The task at a place holds the decision of the request. -/
def Holds (w : Session) (i : Nat) (id : String) (r : VerificationRequest) : Prop :=
  ∃ t, w.tasks[i]? = some t ∧ t.Holds id r

/-- The statuses that were announced as decisions of the request. -/
def resolutions (w : Session) (id : String) : List RequestStatus :=
  w.events.filterMap (Event.resolution? id)

theorem Decided.holds {w : Session} {i : Nat} {id : String} {r : VerificationRequest}
    (h : w.Decided i id r) : w.Holds i id r := by
  obtain ⟨t, found, decided⟩ := h
  exact ⟨t, found, Or.inr decided⟩

theorem Decided.eq_of_holds {w : Session} {i : Nat} {id : String} {r x : VerificationRequest}
    (h : w.Decided i id r) (hx : w.Holds i id x) : x = r := by
  obtain ⟨t, found, decided⟩ := h
  obtain ⟨u, found', holds⟩ := hx
  rw [found] at found'
  cases found'
  exact decided.eq_of_holds holds

/-- One task at most holds the decision of the request; what it holds is stored, and was committed
by a visit of its own. The decision is announced once that task has returned. -/
structure Settled (id : String) (w : Session) : Prop where
  stands : ∀ i r, w.Holds i id r → w.store.requests.get? id = some r ∧ r.status ≠ .pending
  committed : ∀ i r, w.Holds i id r → ∃ v, (i, v) ∈ w.visits ∧ v.Commits id r
  alone : ∀ i j r x, w.Holds i id r → w.Holds j id x → i = j
  told : ∀ i r, w.Decided i id r → w.resolutions id = [r.status]
  quiet : (∀ i r, ¬ w.Decided i id r) → w.resolutions id = []

theorem settled_start (s : Store) (id : String) : (start s).Settled id where
  stands := by rintro i r ⟨t, ht, -⟩; cases ht
  committed := by rintro i r ⟨t, ht, -⟩; cases ht
  alone := by rintro i j r x ⟨t, ht, -⟩; cases ht
  told := by rintro i r ⟨t, ht, -⟩; cases ht
  quiet := fun _ => rfl

/-! ### A demand -/

theorem holds_of_demanded {w : Session} {d : Demand} {i : Nat} {id : String}
    {r : VerificationRequest} (h : (w.demanded d).Holds i id r) : w.Holds i id r := by
  obtain ⟨t, ht, holds⟩ := h
  rcases getElem?_demanded_cases ht with hold | ⟨-, rfl⟩
  · exact ⟨t, hold, holds⟩
  · exact absurd holds (Task.not_holds_of_started d id r)

theorem decided_demanded {w : Session} (d : Demand) {i : Nat} {id : String}
    {r : VerificationRequest} :
    (w.demanded d).Decided i id r ↔ w.Decided i id r := by
  constructor
  · rintro ⟨t, ht, decided⟩
    rcases getElem?_demanded_cases ht with hold | ⟨-, rfl⟩
    · exact ⟨t, hold, decided⟩
    · exact absurd (Or.inr decided) (Task.not_holds_of_started d id r)
  · rintro ⟨t, ht, decided⟩
    exact ⟨t, getElem?_demanded d ht, decided⟩

theorem Settled.demanded {w : Session} {id : String} (h : w.Settled id) (d : Demand) :
    (w.demanded d).Settled id where
  stands i r hi := h.stands i r (holds_of_demanded hi)
  committed i r hi := h.committed i r (holds_of_demanded hi)
  alone i j r x hi hj := h.alone i j r x (holds_of_demanded hi) (holds_of_demanded hj)
  told i r hi := h.told i r ((decided_demanded d).1 hi)
  quiet hnone := h.quiet fun i r hi => hnone i r ((decided_demanded d).2 hi)

/-! ### A visit -/

variable {w : Session} {i : Nat} {t : Task} {v : Visit} {id : String}

/-- Who holds a decision after a visit has just committed it, or held it before. -/
theorem holds_of_visited (asked : t.call.access? = some v.access) (served : v.Served) {j : Nat}
    {r : VerificationRequest} (h : (w.visited i t v).Holds j id r) :
    (i = j ∧ v.Commits id r) ∨ (i ≠ j ∧ w.Holds j id r) := by
  obtain ⟨u, hu, holds⟩ := h
  rcases getElem?_set_cases hu with ⟨hij, rfl⟩ | ⟨hij, hold⟩
  · exact Or.inl ⟨hij, Task.commits_of_holds asked served holds⟩
  · exact Or.inr ⟨hij, u, hold, holds⟩

/-- A visit lets nobody return. -/
theorem decided_visited (found : w.tasks[i]? = some t) (asked : t.call.access? = some v.access)
    {j : Nat} {r : VerificationRequest} : (w.visited i t v).Decided j id r ↔ w.Decided j id r := by
  constructor
  · rintro ⟨u, hu, decided⟩
    rcases getElem?_set_cases hu with ⟨-, rfl⟩ | ⟨-, hold⟩
    · exact absurd decided (Task.not_decided_of_asked asked id r)
    · exact ⟨u, hold, decided⟩
  · rintro ⟨u, hu, decided⟩
    have hij : i ≠ j := by
      rintro rfl
      rw [found] at hu
      cases hu
      exact Task.not_decided_of_asked asked id r decided
    refine ⟨u, ?_, decided⟩
    rw [visited, List.getElem?_set_ne hij, hu]

/-- No visit commits the decision of a request that somebody holds. -/
theorem Settled.not_commits (h : w.Settled id) (before : v.before = w.store) {j : Nat}
    {x : VerificationRequest} (hj : w.Holds j id x) (r : VerificationRequest) :
    ¬ v.Commits id r := by
  rintro ⟨-, -, -, ⟨old, hold, pending⟩, -⟩
  obtain ⟨hstored, hdecided⟩ := h.stands j x hj
  rw [before, hstored] at hold
  cases hold
  exact hdecided pending

theorem Settled.visited (h : w.Settled id) (found : w.tasks[i]? = some t)
    (asked : t.call.access? = some v.access) (served : v.Served) (before : v.before = w.store) :
    (w.visited i t v).Settled id where
  stands := by
    intro j r hj
    rcases holds_of_visited asked served hj with ⟨rfl, -, -, final, -, hafter⟩ | ⟨-, hold⟩
    · exact ⟨hafter, final⟩
    · obtain ⟨hstored, final⟩ := h.stands j r hold
      obtain ⟨r', hr', hevolves⟩ := served.later id r (before ▸ hstored)
      -- What is decided does not change.
      obtain rfl := hevolves.eq_of_ne_pending final
      exact ⟨hr', final⟩
  committed := by
    intro j r hj
    rcases holds_of_visited asked served hj with ⟨rfl, hcommits⟩ | ⟨-, hold⟩
    · exact ⟨v, List.mem_concat_self, hcommits⟩
    · obtain ⟨u, hu, hcommits⟩ := h.committed j r hold
      exact ⟨u, List.mem_append_left _ hu, hcommits⟩
  alone := by
    intro j k r x hj hk
    rcases holds_of_visited asked served hj with ⟨rfl, hcommits⟩ | ⟨-, hold⟩
    · rcases holds_of_visited asked served hk with ⟨rfl, -⟩ | ⟨-, hold'⟩
      · rfl
      · exact absurd hcommits (h.not_commits before hold' r)
    · rcases holds_of_visited asked served hk with ⟨rfl, hcommits⟩ | ⟨-, hold'⟩
      · exact absurd hcommits (h.not_commits before hold x)
      · exact h.alone j k r x hold hold'
  told j r hj := h.told j r ((decided_visited found asked).1 hj)
  quiet hnone := h.quiet fun j r hj => hnone j r ((decided_visited found asked).2 hj)

/-! ### Taking a reply -/

variable {reply : Reply}

/-- A task that takes a reply returns the decision that it held and announces it, or holds none and
announces none. -/
theorem resumed_cases (sound : w.Sound) (now : Instant) (found : w.tasks[i]? = some t)
    (replied : t.reply = some reply) (id : String) :
    (∃ r, w.Holds i id r ∧ (w.resumed i t reply now).Decided i id r ∧
        (w.resumed i t reply now).resolutions id = w.resolutions id ++ [r.status]) ∨
      ((∀ r, ¬ (w.resumed i t reply now).Holds i id r) ∧
        (w.resumed i t reply now).resolutions id = w.resolutions id) := by
  have course := sound.course i t found
  rw [replied] at course
  have hplace : (w.resumed i t reply now).tasks[i]? =
      some ⟨t.demand, (t.call.resume now reply).1, none⟩ := by
    rw [Session.resumed, List.getElem?_set_self (List.getElem?_eq_some_iff.1 found).1]
  have hevents : (w.resumed i t reply now).resolutions id =
      w.resolutions id ++ (t.call.resume now reply).2.filterMap (Event.resolution? id) :=
    List.filterMap_append
  rw [hevents]
  rcases Task.holds_resumed course.leads (course.resumed now) id with
    ⟨r, hheld, hdecided, hannounced⟩ | ⟨hnone, hsilent⟩
  · refine Or.inl ⟨r, ⟨t, found, ?_⟩, ⟨_, hplace, hdecided⟩, by rw [hannounced]⟩
    rw [← replied] at hheld
    exact hheld
  · refine Or.inr ⟨?_, by rw [hsilent, List.append_nil]⟩
    rintro r ⟨u, hu, holds⟩
    rw [hplace] at hu
    cases hu
    exact hnone r holds

theorem holds_of_resumed (sound : w.Sound) (now : Instant) (found : w.tasks[i]? = some t)
    (replied : t.reply = some reply) {j : Nat} {r : VerificationRequest}
    (h : (w.resumed i t reply now).Holds j id r) : w.Holds j id r := by
  have hholds := h
  obtain ⟨u, hu, holds⟩ := h
  rcases getElem?_set_cases hu with ⟨rfl, -⟩ | ⟨-, hold⟩
  · rcases resumed_cases sound now found replied id with ⟨r', hheld, hdecided, -⟩ | ⟨hnone, -⟩
    · rw [hdecided.eq_of_holds hholds]
      exact hheld
    · exact absurd hholds (hnone r)
  · exact ⟨u, hold, holds⟩

/-- A task that has yet to take a reply has not returned. -/
theorem not_decided_of_replied (sound : w.Sound) (found : w.tasks[i]? = some t)
    (replied : t.reply = some reply) (r : VerificationRequest) : ¬ w.Decided i id r := by
  rintro ⟨u, hu, decided⟩
  rw [found] at hu
  cases hu
  have course := sound.course i t found
  rw [replied] at course
  obtain ⟨us, v, -, -, asked, -, -⟩ := course.exists_last
  exact Task.not_decided_of_asked asked id r decided

theorem Settled.resumed (h : w.Settled id) (sound : w.Sound) (now : Instant)
    (found : w.tasks[i]? = some t) (replied : t.reply = some reply) :
    (w.resumed i t reply now).Settled id where
  stands j r hj := h.stands j r (holds_of_resumed sound now found replied hj)
  committed j r hj := h.committed j r (holds_of_resumed sound now found replied hj)
  alone j k r x hj hk :=
    h.alone j k r x (holds_of_resumed sound now found replied hj)
      (holds_of_resumed sound now found replied hk)
  told := by
    intro j x hj
    rcases resumed_cases sound now found replied id with
      ⟨r, hheld, hdecided, hannounced⟩ | ⟨hnone, hsame⟩
    · -- Another task that had announced a decision would hold it beside this one.
      have hquiet : w.resolutions id = [] := by
        refine h.quiet fun k y hk => ?_
        obtain rfl := h.alone k i y r hk.holds hheld
        exact not_decided_of_replied sound found replied y hk
      obtain rfl := h.alone j i x r (holds_of_resumed sound now found replied hj.holds) hheld
      rw [hannounced, hquiet, hdecided.eq_of_holds hj.holds, List.nil_append]
    · obtain ⟨u, hu, decided⟩ := hj
      rcases getElem?_set_cases hu with ⟨rfl, -⟩ | ⟨-, hold⟩
      · exact absurd ⟨u, hu, Or.inr decided⟩ (hnone x)
      · rw [hsame]
        exact h.told j x ⟨u, hold, decided⟩
  quiet := by
    intro hnobody
    rcases resumed_cases sound now found replied id with ⟨r, -, hdecided, -⟩ | ⟨-, hsame⟩
    · exact absurd hdecided (hnobody i r)
    · rw [hsame]
      refine h.quiet ?_
      rintro j x ⟨u, hu, decided⟩
      have hij : i ≠ j := by
        rintro rfl
        exact not_decided_of_replied sound found replied x ⟨u, hu, decided⟩
      refine hnobody j x ⟨u, ?_, decided⟩
      rw [Session.resumed, List.getElem?_set_ne hij, hu]

/-! ## Any run -/

theorem Settled.step {w' : Session} (sound : w.Sound) (h : w.Settled id) (hs : w.Step w') :
    w'.Settled id := by
  cases hs with
  | demanded d => exact h.demanded d
  | visited found idle asked served before => exact h.visited found asked served before
  | resumed now found replied => exact h.resumed sound now found replied

/-- No decision was announced, or that of a task that has returned it. -/
theorem Settled.resolutions_cases (h : w.Settled id) :
    w.resolutions id = [] ∨ ∃ i r, w.Decided i id r ∧ w.resolutions id = [r.status] := by
  by_cases hsome : ∃ i r, w.Decided i id r
  · obtain ⟨i, r, hi⟩ := hsome
    exact Or.inr ⟨i, r, hi, h.told i r hi⟩
  · exact Or.inl (h.quiet fun i r hi => hsome ⟨i, r, hi⟩)

/-- **A request is decided once.** However calls interleave: at most one call that decides a request
succeeds. What it returns stays stored whatever is done afterwards, and its status is the only
decision of the request that is announced by then. At any time no more than one decision was
announced, and the store has committed it before. -/
theorem decided_once (s : Store) (moves : List Move) (id : String) :
    let w := (start s).run moves
    (∀ i j r x, w.Decided i id r → w.Decided j id x → i = j) ∧
      (∀ i r, w.Decided i id r → w.resolutions id = [r.status] ∧
        ∀ more, (w.run more).store.requests.get? id = some r) ∧
      (w.resolutions id).length ≤ 1 ∧
      ∀ status ∈ w.resolutions id,
        ∃ i v r, (i, v) ∈ w.visits ∧ v.Commits id r ∧ r.status = status := by
  intro w
  obtain ⟨sound, settled⟩ : w.Sound ∧ w.Settled id :=
    run_keeps (fun _ _ sound h hs => h.step sound hs) (sound_start s) (settled_start s id) moves
  refine ⟨?unique, ?stands, ?announced, ?backed⟩
  case unique => exact fun i j r x hi hj => settled.alone i j r x hi.holds hj.holds
  case stands =>
    intro i r hi
    refine ⟨settled.told i r hi, fun more => ?_⟩
    obtain ⟨hstored, final⟩ := settled.stands i r hi.holds
    obtain ⟨r', hr', hevolves⟩ := later_run sound more id r hstored
    rw [hevolves.eq_of_ne_pending final, hr']
  case announced =>
    rcases settled.resolutions_cases with hnone | ⟨i, r, -, hone⟩
    · rw [hnone]
      exact Nat.zero_le 1
    · rw [hone]
      exact Nat.le_refl 1
  case backed =>
    intro status hstatus
    rcases settled.resolutions_cases with hnone | ⟨i, r, hi, hone⟩
    · rw [hnone] at hstatus
      cases hstatus
    · rw [hone, List.mem_singleton] at hstatus
      obtain ⟨v, hv, hcommits⟩ := settled.committed i r hi.holds
      exact ⟨i, v, r, hv, hcommits, hstatus.symm⟩

/-- A rejection that overtakes the round of an acceptance is the only decision. -/
example :
    ((start .empty).run
      [.demand (.create "r1" "p1" "u1" "Acme" default default), .access 0 default,
        .resume 0 default, .demand (.resolve "r1" .accept), .demand (.resolve "r1" .reject),
        .access 1 default, .access 2 default, .resume 1 default, .resume 2 default,
        .access 2 default, .answer 1 (.ok default), .resume 1 default, .access 1 default,
        .resume 1 default, .resume 2 default]).resolutions "r1" = [.rejected] := by
  cbv

end Session

end Lifecycle

end SealedCustody
