import SealedCustody.Proofs.Lifecycle.Session
import Mathlib

/-!
# What a failed call leaves behind

A call that returns an error has changed nothing, with one exception. Amending a request and
withdrawing it are two writes, with a read between them; if another call decides or amends the
request in between, the second write does not take place, and the criteria stay amended although an
error is returned. `Session.changed_by_failed_iff` says that this is the only way for a failed call
to change the store.

## Shape of the proof

A call makes one write, unless it amends and withdraws, so a call that has not returned has written
nothing or is in the second half of such an amendment (`Course.effect`). In the second half it goes
by the record that its first half stored for as long as it finds it, and while it does it cannot
fail.
-/

namespace SealedCustody

open Lifecycle

/-- The visit replaced a pending record by one with other criteria, which is pending still. -/
def Store.Visit.Amends (v : Store.Visit) (id : String) (criteria : Criteria)
    (new : VerificationRequest) : Prop :=
  (∃ old, v.before.requests.get? id = some old ∧ old.status = .pending ∧
    new.requesterId = old.requesterId ∧ new.subjectId = old.subjectId ∧
    new.revision.toNat = old.revision.toNat + 1) ∧
  new.status = .pending ∧ new.criteria = criteria ∧ v.after = v.before.put id new

theorem Store.Visit.Amends.changed {v : Store.Visit} {id : String} {criteria : Criteria}
    {new : VerificationRequest} (h : v.Amends id criteria new) : v.after ≠ v.before := by
  obtain ⟨⟨old, hold, -, -, -, hrevision⟩, -, -, hafter⟩ := h
  intro hsame
  have hnew : v.after.requests.get? id = some new := by
    rw [hafter, Store.get?_put, if_pos rfl]
  rw [hsame, hold] at hnew
  cases hnew
  omega

namespace Lifecycle

open Store (Visit)

/-- A later visit did not find the request as it was left, or no revision was left to write it. -/
def Overtaken (id : String) (left : VerificationRequest) (later : List Visit) : Prop :=
  left.revision.toNat + 1 = UInt64.size ∨ ∃ v ∈ later, v.before.requests.get? id ≠ some left

theorem Overtaken.append {id : String} {left : VerificationRequest} {later : List Visit}
    (h : Overtaken id left later) (v : Visit) : Overtaken id left (later ++ [v]) := by
  rcases h with hlast | ⟨u, hu, hfound⟩
  · exact Or.inl hlast
  · exact Or.inr ⟨u, List.mem_append_left _ hu, hfound⟩

/-- What a call that amends and withdraws can be after it has amended: reading the request, about to
withdraw it as it was left, or else overtaken. -/
inductive SecondHalf (id : String) (left : VerificationRequest) (later : List Visit) :
    Call → Prop where
  | reading : SecondHalf id left later (.reading id .cancel)
  | committing : SecondHalf id left later (.committing id left .cancelled none)
  | overtaken {current : VerificationRequest} (h : Overtaken id left later) :
      SecondHalf id left later (.committing id current .cancelled none)
  | failed {e : Error} (h : Overtaken id left later) : SecondHalf id left later (.done (.error e))

/-- A call that has read a request to withdraw it goes by what it has found. -/
theorem SecondHalf.afterRead {id : String} {left : VerificationRequest} {later : List Visit}
    {v : Visit} (pending : left.status = .pending) (keyed : v.before.Keyed)
    {current : VerificationRequest} {rest : List VerificationRequest}
    (hget : v.before.get (.byId id) = .ok (current :: rest)) (now : Instant) :
    SecondHalf id left (later ++ [v]) (Call.afterRead id current now .cancel) := by
  by_cases hfound : v.before.requests.get? id = some left
  · obtain ⟨rest', hleft⟩ := keyed.get_byId hfound
    rw [hget] at hleft
    cases hleft
    have hcheck : left.checkTransition .cancelled = .ok () := by
      unfold VerificationRequest.checkTransition
      rw [if_pos ((Store.canBecome_iff _ _).2 ⟨pending, by decide⟩)]
    rw [Call.afterRead, hcheck]
    exact .committing
  · have hlate : Overtaken id left (later ++ [v]) :=
      Or.inr ⟨v, List.mem_concat_self, hfound⟩
    rw [Call.afterRead]
    split
    · exact .failed hlate
    · exact .overtaken hlate

/-- A commit that does not return the request has changed nothing, and its call fails. -/
theorem Call.refused_of_committing {id : String} {current : VerificationRequest}
    {next : RequestStatus} {outcome : Option Outcome} {v : Visit}
    (asked : (Call.committing id current next outcome).access? = some v.access) (served : v.Served)
    (now : Instant)
    (returned : ∀ x,
      ((Call.committing id current next outcome).resume now v.reply).1 ≠ .done (.ok x)) :
    ∃ e, v.reply = .request (.error e) ∧ v.after = v.before ∧
      ((Call.committing id current next outcome).resume now v.reply).1 = .done (.error e) := by
  obtain ⟨result, hresult⟩ := Call.reply_of_committing asked served
  rw [hresult] at returned ⊢
  cases result with
  | ok r => exact absurd rfl (returned _)
  | error e =>
    have hwritten : v.written? = none := by
      rw [Visit.written?, hresult]
    exact ⟨e, rfl, served.unchanged hwritten, rfl⟩

/-- In the second half of an amendment a reply is taken without a change to the store, or the call
returns the request. -/
theorem SecondHalf.resumed {id : String} {left : VerificationRequest} {later : List Visit}
    {call : Call} {v : Visit} (h : SecondHalf id left later call) (pending : left.status = .pending)
    (asked : call.access? = some v.access) (served : v.Served) (keyed : v.before.Keyed)
    (now : Instant) (returned : ∀ x, (call.resume now v.reply).1 ≠ .done (.ok x)) :
    v.after = v.before ∧ SecondHalf id left (later ++ [v]) (call.resume now v.reply).1 := by
  cases h with
  | reading =>
    have hread := Call.reply_of_reading asked served
    have hwritten : v.written? = none := by
      rw [Visit.written?, hread]
    refine ⟨served.unchanged hwritten, ?_⟩
    have hlate (hmissed : ∀ rest, v.before.get (.byId id) ≠ .ok (left :: rest)) :
        Overtaken id left (later ++ [v]) := by
      refine Or.inr ⟨v, List.mem_concat_self, fun hfound => ?_⟩
      obtain ⟨rest, hget⟩ := keyed.get_byId hfound
      exact hmissed rest hget
    rw [hread]
    cases hget : v.before.get (.byId id) with
    | error e => exact .failed (hlate fun rest hrest => by rw [hget] at hrest; cases hrest)
    | ok rs =>
      cases rs with
      | nil => exact .failed (hlate fun rest hrest => by rw [hget] at hrest; cases hrest)
      | cons current rest => exact .afterRead pending keyed hget now
  | committing =>
    obtain ⟨e, hrefused, hsame, hcall⟩ := Call.refused_of_committing asked served now returned
    rw [hcall]
    refine ⟨hsame, .failed ?_⟩
    by_cases hroom : left.revision.toNat + 1 = UInt64.size
    · exact Or.inl hroom
    · refine Or.inr ⟨v, List.mem_concat_self, ?_⟩
      intro hfound
      have hlt := left.revision.toNat_lt_size
      have haccess := (Option.some.inj asked).symm
      rw [pending] at haccess
      -- Had the commit found the request as it was left, it would have been carried out.
      obtain ⟨r, hr⟩ := served.reply_ok haccess hfound pending (by decide) (by omega)
      rw [hrefused] at hr
      cases hr
  | overtaken hlate =>
    obtain ⟨e, -, hsame, hcall⟩ := Call.refused_of_committing asked served now returned
    rw [hcall]
    exact ⟨hsame, .failed (hlate.append v)⟩
  | failed hlate => cases asked

/-! ## The effect of a call that has not returned -/

/-- What a call has done to the store on the way: nothing, or the first half of an amendment that is
to withdraw the request as well. -/
inductive Effect (d : Demand) : List Visit → Call → Prop where
  | none {vs : List Visit} {call : Call} (unchanged : ∀ v ∈ vs, v.after = v.before) :
      Effect d vs call
  | half {id : String} {criteria : Criteria} {earlier later : List Visit} {v : Visit}
      {left : VerificationRequest} {call : Call} (demanded : d = .amend id criteria .cancelled)
      (amends : v.Amends id criteria left) (unchanged : ∀ u ∈ earlier ++ later, u.after = u.before)
      (second : SecondHalf id left later call) : Effect d (earlier ++ v :: later) call

/-- An answered update has amended the request as demanded. -/
theorem Call.amends_of_updating {d : Demand} {id : String} {record r : VerificationRequest}
    {status : RequestStatus} {v : Visit} (leads : d.Leads (.updating id record status))
    (asked : (Call.updating id record status).access? = some v.access) (served : v.Served)
    (hreply : v.reply = .request (.ok r)) :
    d = .amend id record.criteria status ∧ v.Amends id record.criteria r := by
  have hwritten : v.written? = some r := by
    rw [Visit.written?, hreply]
  obtain ⟨hdemand, named, pending⟩ := leads.of_updating
  rcases Call.writes_cases asked (served.writes hwritten) with
    ⟨hcall, -⟩ | ⟨k, record', status', stored, hcall, hstored, hpending, requester, subject, -, room,
      rfl, hafter⟩ |
    ⟨k, current, next, outcome, stored, now, hcall, -⟩
  · cases hcall
  · cases hcall
    rw [named] at hstored
    have hrevision := VerificationRequest.toNat_revision_succ room
    refine ⟨hdemand, ⟨stored, hstored, hpending, requester, subject, hrevision⟩, pending, rfl, ?_⟩
    rw [hafter, named]
  · cases hcall

theorem Effect.unchanged_append {d : Demand} {vs : List Visit} {v : Visit} {call : Call}
    (unchanged : ∀ u ∈ vs, u.after = u.before) (served : v.Served)
    (refused : ∀ r, v.reply ≠ .request (.ok r)) : Effect d (vs ++ [v]) call := by
  refine .none fun u hu => ?_
  rcases List.mem_append.1 hu with hold | hnew
  · exact unchanged u hold
  · rw [List.mem_singleton.1 hnew]
    exact served.unchanged (Visit.written?_eq_none refused)

theorem Effect.resumed {d : Demand} {vs : List Visit} {call : Call} {v : Visit}
    (h : Effect d vs call) (leads : d.Leads call) (asked : call.access? = some v.access)
    (served : v.Served) (keyed : v.before.Keyed) (now : Instant)
    (returned : ∀ x, (call.resume now v.reply).1 ≠ .done (.ok x)) :
    Effect d (vs ++ [v]) (call.resume now v.reply).1 := by
  cases h with
  | half demanded amends unchanged second =>
    obtain ⟨hsame, hsecond⟩ := second.resumed amends.2.1 asked served keyed now returned
    rw [List.append_assoc, List.cons_append]
    refine .half demanded amends (fun u hu => ?_) hsecond
    rw [← List.append_assoc] at hu
    rcases List.mem_append.1 hu with hold | hnew
    · exact unchanged u hold
    · rw [List.mem_singleton.1 hnew, hsame]
  | none unchanged =>
    have hresumed := Call.resumed asked served now
    generalize (call.resume now v.reply).1 = call' at hresumed returned ⊢
    generalize (call.resume now v.reply).2 = events at hresumed
    generalize hreply : v.reply = reply at hresumed
    cases hresumed with
    | created => exact absurd rfl (returned _)
    | committed => exact absurd rfl (returned _)
    | amended kept => exact absurd rfl (returned _)
    | read named =>
      exact .unchanged_append unchanged served fun r hr => by rw [hreply] at hr; cases hr
    | dispatched =>
      exact .unchanged_append unchanged served fun r hr => by rw [hreply] at hr; cases hr
    | failed refused silent => exact .unchanged_append unchanged served (hreply ▸ refused)
    | withdrawing =>
      -- Of all writes, only that of a first half is not the last thing that its call does.
      obtain ⟨hdemand, amends⟩ := Call.amends_of_updating leads asked served hreply
      refine .half hdemand amends (fun u hu => ?_) .reading
      rw [List.append_nil] at hu
      exact unchanged u hu

/-- A call that has not returned a request has changed nothing, or is in the second half of an
amendment; while it has yet to take a reply this is so up to the visit that was replied to. -/
theorem Course.effect {d : Demand} {vs : List Visit} {call : Call} {reply? : Option Reply}
    (h : Course d vs call reply?) (keyed : ∀ v ∈ vs, v.before.Keyed) :
    (reply? = none → (∀ x, call ≠ .done (.ok x)) → Effect d vs call) ∧
      ∀ reply, reply? = some reply → ∃ us v, vs = us ++ [v] ∧ Effect d us call ∧
        call.access? = some v.access ∧ v.Served ∧ v.reply = reply := by
  induction h with
  | start =>
    refine ⟨fun _ _ => .none fun v hv => ?_, fun reply hreply => ?_⟩
    · cases hv
    · cases hreply
  | @visit vs call v before asked served ih =>
    refine ⟨fun hnone => absurd hnone (Option.some_ne_none _), fun reply hreply => ?_⟩
    cases hreply
    have hearlier := (ih fun u hu => keyed u (List.mem_append_left _ hu)).1 rfl
    refine ⟨vs, v, rfl, hearlier fun x hx => ?_, asked, served, rfl⟩
    rw [hx] at asked
    cases asked
  | @resume vs call reply now before ih =>
    refine ⟨fun _ returned => ?_, fun reply' hreply => absurd hreply.symm (Option.some_ne_none _)⟩
    obtain ⟨us, v, rfl, heffect, asked, served, rfl⟩ := (ih keyed).2 reply rfl
    have hkeyed := keyed v (List.mem_concat_self)
    exact heffect.resumed before.leads asked served hkeyed now returned

/-- A call that has returned has no reply to take. -/
theorem Course.reply_eq_none {d : Demand} {vs : List Visit} {call : Call} {reply? : Option Reply}
    (h : Course d vs call reply?) (returned : call.access? = none) : reply? = none := by
  cases h with
  | start => rfl
  | visit before asked served =>
    rw [returned] at asked
    cases asked
  | resume now before => rfl

namespace Session

/-! ## Failed calls -/

/-- Every request stands under its own id, in the store and in every store that was visited. -/
def Keyed (w : Session) : Prop := w.store.Keyed ∧ ∀ p ∈ w.visits, p.2.before.Keyed

theorem Keyed.step {w w' : Session} (h : w.Keyed) (hs : w.Step w') : w'.Keyed := by
  cases hs with
  | demanded d => exact h
  | resumed now found replied => exact h
  | visited found idle asked served before =>
    have hbefore := before ▸ h.1
    refine ⟨served.keyed hbefore, ?_⟩
    intro p hp
    rcases List.mem_append.1 hp with hold | hnew
    · exact h.2 p hold
    · rw [List.mem_singleton.1 hnew]
      exact hbefore

theorem keyed_run {s : Store} (keyed : s.Keyed) (moves : List Move) : ((start s).run moves).Keyed := by
  have hstart : (start s).Keyed := ⟨keyed, fun p hp => by cases hp⟩
  exact (run_keeps (fun _ _ _ h hs => h.step hs) (sound_start s) hstart moves).2

/-- **A failed call changes the store only by half an amendment.** However calls interleave: a call
that has returned an error has changed nothing, unless it was to amend a request and to withdraw it.
It has then changed the store exactly if it has put the new criteria in place and was overtaken: it
did not find the request again as it had left it, or there was no revision left to withdraw it. -/
theorem changed_by_failed_iff (s : Store) (keyed : s.Keyed) (moves : List Move) (i : Nat) (t : Task)
    (found : ((start s).run moves).tasks[i]? = some t) (e : Error)
    (failed : t.call = .done (.error e)) :
    (∃ v ∈ ((start s).run moves).visitsOf i, v.after ≠ v.before) ↔
      ∃ id criteria earlier v later left, t.demand = .amend id criteria .cancelled ∧
        ((start s).run moves).visitsOf i = earlier ++ v :: later ∧ v.Amends id criteria left ∧
        (∀ u ∈ earlier ++ later, u.after = u.before) ∧ Overtaken id left later := by
  have course := (sound_run s moves).course i t found
  have hkeyed : ∀ v ∈ ((start s).run moves).visitsOf i, v.before.Keyed :=
    fun v hv => (keyed_run keyed moves).2 (i, v) (mem_visitsOf.1 hv)
  generalize ((start s).run moves).visitsOf i = vs at course hkeyed ⊢
  constructor
  · rintro ⟨v, hv, hchanged⟩
    have hnone : t.reply = none := course.reply_eq_none (by rw [failed]; rfl)
    have heffect : Effect t.demand vs t.call :=
      (course.effect hkeyed).1 hnone fun x hx => by rw [failed] at hx; cases hx
    rw [failed] at heffect
    generalize hdemand : t.demand = d at heffect
    cases heffect with
    | none unchanged => exact absurd (unchanged v hv) hchanged
    | half demanded amends unchanged second =>
      cases second with
      | failed hlate => exact ⟨_, _, _, _, _, _, demanded, rfl, amends, unchanged, hlate⟩
  · rintro ⟨id, criteria, earlier, v, later, left, -, rfl, amends, -, -⟩
    exact ⟨v, List.mem_append_right _ List.mem_cons_self, amends.changed⟩

/-- A request is rejected between the two halves of an amendment that is to withdraw it. -/
def overtaking : List Move :=
  [.demand (.create "r1" "p1" "u1" "Acme" default default), .access 0 default, .resume 0 default,
    .demand (.amend "r1" ⟨some "adults", [], []⟩ .cancelled), .access 1 default, .resume 1 default,
    .access 1 default, .resume 1 default, .demand (.resolve "r1" .reject), .access 2 default,
    .resume 2 default, .access 2 default, .access 1 default, .resume 1 default]

/-- The amendment that is overtaken fails, and leaves its criteria in place. -/
theorem changed_by_failed_of_overtaking :
    ((start .empty).run overtaking).tasks[1]? =
        some ⟨.amend "r1" ⟨some "adults", [], []⟩ .cancelled,
          .done (.error (.invalidTransition "r1" .rejected .cancelled)), none⟩ ∧
      ∃ earlier v later left, ((start .empty).run overtaking).visitsOf 1 = earlier ++ v :: later ∧
        v.Amends "r1" ⟨some "adults", [], []⟩ left ∧ Overtaken "r1" left later := by
  have found : ((start .empty).run overtaking).tasks[1]? =
      some ⟨.amend "r1" ⟨some "adults", [], []⟩ .cancelled,
        .done (.error (.invalidTransition "r1" .rejected .cancelled)), none⟩ := by cbv
  have revisions : (((start .empty).run overtaking).visitsOf 1).map
      (fun v => (v.before.requests.get? "r1", v.after.requests.get? "r1").map
        (Option.map (·.revision)) (Option.map (·.revision))) =
      [(some 0, some 0), (some 0, some 1), (some 2, some 2)] := by cbv
  have changed : ∃ v ∈ ((start .empty).run overtaking).visitsOf 1, v.after ≠ v.before := by
    have hmem : (some (0 : UInt64), some (1 : UInt64)) ∈
        [(some 0, some 0), (some 0, some 1), (some 2, some 2)] := by decide
    rw [← revisions] at hmem
    obtain ⟨v, hv, hrevisions⟩ := List.mem_map.1 hmem
    refine ⟨v, hv, ?_⟩
    intro hsame
    rw [hsame, Prod.map_apply, Prod.mk.injEq] at hrevisions
    rw [hrevisions.1] at hrevisions
    exact absurd hrevisions.2 (by decide)
  obtain ⟨id, criteria, earlier, v, later, left, hdemand, hvisits, amends, -, hovertaken⟩ :=
    (changed_by_failed_iff .empty Store.keyed_empty overtaking 1 _ found _ rfl).1 changed
  cases hdemand
  exact ⟨found, earlier, v, later, left, hvisits, amends, hovertaken⟩

end Session

end Lifecycle

end SealedCustody
