import SealedCustody.Proofs.Lifecycle.Session
import SealedCustody.Proofs.Store.Revision

/-!
# Only well-formed requests live

The store takes any record that it is given, so that its requests are well-formed is the doing of the
calls: a call checks a request that it creates and criteria that it puts in, and what it reads and
passes on was well-formed when it was stored (`Session.WellFormed`).

Each write to a request adds one to its revision, and of these writes the commits end its pending
state. So a request tells by its revision and its status what was done to it (`Session.Tallies`).
-/

namespace SealedCustody

open Lifecycle

/-- The request names its parties, and its criteria are valid. -/
structure VerificationRequest.WellFormed (r : VerificationRequest) : Prop where
  requester : r.requesterId ≠ ""
  subject : r.subjectId ≠ ""
  criteria : r.criteria.validate = .ok ()

/-- All requests of the store are well-formed. -/
def Store.WellFormed (s : Store) : Prop :=
  ∀ id r, s.requests.get? id = some r → r.WellFormed

/-- The visit moved the status of a request. -/
def Store.Visit.Decides (v : Store.Visit) (id : String) : Prop :=
  (∃ expected revision next, v.access = .compareAndSet id expected revision next) ∧
    ∃ r, v.reply = .request (.ok r)

namespace Lifecycle

open Store (Visit Writes get?_put)

/-! ## What calls write -/

/-- A call stores well-formed requests if it finds such. -/
theorem Call.wellFormed_of_writes {d : Demand} {call : Call} (leads : d.Leads call) {a : Access}
    (asked : call.access? = some a) {s s' : Store} {r : VerificationRequest}
    (writes : Writes s a r s') (h : s.WellFormed) : r.WellFormed := by
  rcases Call.writes_cases asked writes with
    ⟨rfl, -⟩ | ⟨id, record, status, stored, rfl, hstored, -, requester, subject, -, -, rfl, -⟩ |
    ⟨id, current, next, outcome, stored, now, rfl, hstored, -, -, -, rfl, -⟩
  · cases leads with
    | creating requester subject valid => exact ⟨requester, subject, valid⟩
  · have old := h record.id stored hstored
    cases leads with
    | updating named pending amended valid undecided =>
      subst amended
      exact ⟨requester ▸ old.requester, subject ▸ old.subject, valid⟩
  · have old := h id stored hstored
    exact ⟨old.requester, old.subject, old.criteria⟩

/-- What a visit does to the request under an id: nothing, or it creates it, or it writes to it while
it is pending and raises its revision by one. What was written to is no longer pending if its status was
moved. -/
inductive Touches (v : Visit) (id : String) : Prop where
  | spared (unwritten : v.rewrite? id = none) (undecided : ¬ v.Decides id)
      (same : v.after.requests.get? id = v.before.requests.get? id)
  | created {r : VerificationRequest} (unwritten : v.rewrite? id = none)
      (undecided : ¬ v.Decides id) (free : v.before.requests.get? id = none)
      (stored : v.after.requests.get? id = some r) (first : r.revision = 0)
      (pending : r.status = .pending)
  | written {old r : VerificationRequest} {x : Store.Rewrite} (rewrite : v.rewrite? id = some x)
      (found : v.before.requests.get? id = some old) (pending : old.status = .pending)
      (stored : v.after.requests.get? id = some r)
      (next : r.revision.toNat = old.revision.toNat + 1)
      (decided : r.status = .pending ↔ ¬ v.Decides id)

theorem Call.touches {d : Demand} {call : Call} {v : Visit} (leads : d.Leads call)
    (asked : call.access? = some v.access) (served : v.Served) (id : String) : Touches v id := by
  rcases served.writes_or_unchanged with ⟨r, hr, hw⟩ | ⟨hnone, hsame⟩
  · obtain ⟨access, reply, before, after⟩ := v
    dsimp only at hw asked
    cases hw with
    | create free =>
      have undecided : ¬ Visit.Decides ⟨.create r, reply, before, before.put r.id r⟩ id := by
        rintro ⟨⟨_, _, _, haccess⟩, -⟩
        cases haccess
      by_cases hid : r.id = id
      · subst hid
        have hnew : r.revision = 0 ∧ r.status = .pending := by
          cases call with
          | creating r₀ =>
            cases asked
            cases leads with
            | creating => exact ⟨rfl, rfl⟩
          | _ => cases asked
        exact .created rfl undecided free (by rw [get?_put, if_pos rfl]) hnew.1 hnew.2
      · exact .spared rfl undecided (by rw [get?_put, if_neg hid])
    | @update stored record found pending requester subject current room =>
      by_cases hid : record.id = id
      · subst hid
        have hpending : record.status = .pending := by
          cases call with
          | updating k record' status =>
            cases asked
            exact leads.of_updating.2.2
          | _ => cases asked
        refine .written (r := { record with revision := stored.revision + 1 })
          (by simp only [Visit.rewrite?, hr, if_pos]; rfl) found pending
          (by rw [get?_put, if_pos rfl]) (VerificationRequest.toNat_revision_succ room)
          (iff_of_true hpending ?_)
        rintro ⟨⟨_, _, _, haccess⟩, -⟩
        cases haccess
      · refine .spared (by simp only [Visit.rewrite?, hr, if_neg hid]) ?_
          (by rw [get?_put, if_neg hid])
        rintro ⟨⟨_, _, _, haccess⟩, -⟩
        cases haccess
    | @compareAndSet k stored next now found pending final room =>
      by_cases hid : k = id
      · subst hid
        exact .written (by simp only [Visit.rewrite?, hr, if_pos]; rfl) found pending
          (by rw [get?_put, if_pos rfl]) (VerificationRequest.toNat_revision_succ room)
          (iff_of_false final (not_not.2 ⟨⟨_, _, _, rfl⟩, _, Visit.reply_of_written? hr⟩))
      · refine .spared (by simp only [Visit.rewrite?, hr, if_neg hid]) ?_
          (by rw [get?_put, if_neg hid])
        rintro ⟨⟨_, _, _, haccess⟩, -⟩
        cases haccess
        exact hid rfl
  · refine .spared (Visit.rewrite?_of_written?_eq_none hnone) ?_ (by rw [hsame])
    rintro ⟨-, r, hr⟩
    rw [Visit.written?, hr] at hnone
    cases hnone

namespace Session

/-! ## Well-formed requests -/

/-- What is stored or was found in the store is well-formed, and so is what the network is asked
about. -/
structure WellFormed (w : Session) : Prop where
  stored : w.store.WellFormed
  found : ∀ p ∈ w.visits, p.2.before.WellFormed
  asking : ∀ (i : Nat) (t : Task) (id : String) (r : VerificationRequest), w.tasks[i]? = some t →
    t.call = .dispatching id r → r.WellFormed
  asked : ∀ p ∈ w.visits, ∀ r, p.2.access = .dispatch r → r.WellFormed

theorem wellFormed_start : (start .empty).WellFormed where
  stored := fun id r h => by cases h
  found := fun p hp => by cases hp
  asking := fun i t id r h => by cases h
  asked := fun p hp => by cases hp

theorem WellFormed.demanded {w : Session} (h : w.WellFormed) (d : Demand) :
    (w.demanded d).WellFormed where
  stored := h.stored
  found := h.found
  asking := by
    intro i t id r ht hcall
    rcases getElem?_demanded_cases ht with hold | ⟨-, rfl⟩
    · exact h.asking i t id r hold hcall
    · rcases d.call_cases with ⟨e, he⟩ | ⟨r', hr'⟩ | ⟨k, purpose, hk⟩
      · rw [he] at hcall; cases hcall
      · rw [hr'] at hcall; cases hcall
      · rw [hk] at hcall; cases hcall
  asked := h.asked

theorem WellFormed.visited {w : Session} (h : w.WellFormed) (sound : w.Sound) {i : Nat} {t : Task}
    {v : Visit} (found : w.tasks[i]? = some t) (asked : t.call.access? = some v.access)
    (served : v.Served) (before : v.before = w.store) : (w.visited i t v).WellFormed where
  stored := by
    intro id r hr
    rcases served.writes_or_unchanged with ⟨r', -, hwrites⟩ | ⟨-, hsame⟩
    · rw [before] at hwrites
      rcases hwrites.eq_or_stored hr with rfl | hold
      · exact Call.wellFormed_of_writes (sound.course i t found).leads asked hwrites h.stored
      · exact h.stored id r hold
    · have hr' : v.after.requests.get? id = some r := hr
      rw [hsame, before] at hr'
      exact h.stored id r hr'
  found := by
    intro p hp
    rcases List.mem_append.1 hp with hold | hnew
    · exact h.found p hold
    · rw [List.mem_singleton.1 hnew, before]
      exact h.stored
  asking := by
    intro j t' id r ht' hcall
    rcases getElem?_set_cases ht' with ⟨rfl, rfl⟩ | ⟨-, hold⟩
    · exact h.asking i t id r found hcall
    · exact h.asking j t' id r hold hcall
  asked := by
    intro p hp r hr
    rcases List.mem_append.1 hp with hold | hnew
    · exact h.asked p hold r hr
    · -- The network is asked about what the call holds.
      rw [List.mem_singleton.1 hnew] at hr
      rw [hr] at asked
      cases hcall : t.call with
      | dispatching id current =>
        rw [hcall] at asked
        cases asked
        exact h.asking i t id r found hcall
      | _ => rw [hcall] at asked; cases asked

theorem WellFormed.resumed {w : Session} (h : w.WellFormed) (sound : w.Sound) {i : Nat} {t : Task}
    {reply : Reply} (now : Instant) (found : w.tasks[i]? = some t) (replied : t.reply = some reply) :
    (w.resumed i t reply now).WellFormed where
  stored := h.stored
  found := h.found
  asking := by
    intro j t' id r ht' hcall
    rcases getElem?_set_cases ht' with ⟨rfl, rfl⟩ | ⟨-, hold⟩
    · have course := sound.course i t found
      rw [replied] at course
      have hresumed := course.resumed now
      rw [show (t.call.resume now reply).1 = .dispatching id r from hcall] at hresumed
      generalize hcall' : Call.dispatching id r = call' at hresumed
      generalize (t.call.resume now reply).2 = events at hresumed
      generalize hprior : t.call = call at hresumed
      cases hresumed with
      | @read k purpose current rest named =>
        -- What the call has read was stored when it read it.
        obtain ⟨us, v, hvisits, -, asked, served, hreply⟩ := course.exists_last
        rw [hprior] at asked
        have hread := (Call.reply_of_reading asked served).symm.trans hreply
        obtain ⟨-, key, hkey⟩ :=
          Store.mem_get_byId (Reply.requests.inj hread) List.mem_cons_self
        have hmem : (i, v) ∈ w.visits := mem_visitsOf.1 (hvisits ▸ List.mem_concat_self)
        rcases Call.afterRead_cases k current now purpose with
          ⟨e, he⟩ | hd | ⟨next, -, hc⟩ | ⟨record, status, hu⟩
        · rw [he] at hcall'; cases hcall'
        · rw [hd] at hcall'
          cases hcall'
          exact h.found _ hmem key r hkey
        · rw [hc] at hcall'; cases hcall'
        · rw [hu] at hcall'; cases hcall'
      | created => cases hcall'
      | dispatched => cases hcall'
      | committed => cases hcall'
      | amended kept => cases hcall'
      | withdrawing => cases hcall'
      | failed refused silent => cases hcall'
    · exact h.asking j t' id r hold hcall
  asked := h.asked

theorem WellFormed.step {w w' : Session} (sound : w.Sound) (h : w.WellFormed) (hs : w.Step w') :
    w'.WellFormed := by
  cases hs with
  | demanded d => exact h.demanded d
  | visited found idle asked served before => exact h.visited sound found asked served before
  | resumed now found replied => exact h.resumed sound now found replied

/-! ## What a request tells of its writes -/

/-- The writes to a stored request under an id, in order. -/
def rewrites (w : Session) (id : String) : List Store.Rewrite :=
  w.visits.filterMap fun p => p.2.rewrite? id

/-- The status of the request has been moved. -/
def Moved (w : Session) (id : String) : Prop := ∃ p ∈ w.visits, p.2.Decides id

/-- What is stored under an id fits what was written to it. -/
structure Tallies (id : String) (w : Session) : Prop where
  absent : w.store.requests.get? id = none → w.rewrites id = [] ∧ ¬ w.Moved id
  present : ∀ r, w.store.requests.get? id = some r →
    r.revision.toNat = (w.rewrites id).length ∧ (r.status = .pending ↔ ¬ w.Moved id)

theorem rewrites_visited (w : Session) (i : Nat) (t : Task) (v : Visit) (id : String) :
    (w.visited i t v).rewrites id = w.rewrites id ++ (v.rewrite? id).toList := by
  unfold rewrites visited
  rw [List.filterMap_append]
  cases h : v.rewrite? id <;> simp [h]

theorem moved_visited {w : Session} {i : Nat} {t : Task} {v : Visit} {id : String} :
    (w.visited i t v).Moved id ↔ w.Moved id ∨ v.Decides id := by
  unfold Moved visited
  simp only [List.mem_append, List.mem_singleton, or_and_right, exists_or, exists_eq_left]

theorem Tallies.visited {id : String} {w : Session} (h : w.Tallies id) (sound : w.Sound) {i : Nat}
    {t : Task} {v : Visit} (found : w.tasks[i]? = some t) (asked : t.call.access? = some v.access)
    (served : v.Served) (before : v.before = w.store) : (w.visited i t v).Tallies id := by
  have hstore : (w.visited i t v).store = v.after := rfl
  have htouches := Call.touches (sound.course i t found).leads asked served id
  cases htouches with
  | spared unwritten undecided same =>
    have hrewrites : (w.visited i t v).rewrites id = w.rewrites id := by
      rw [rewrites_visited, unwritten, Option.toList_none, List.append_nil]
    have hmoved : (w.visited i t v).Moved id ↔ w.Moved id := by
      rw [moved_visited, or_iff_left undecided]
    constructor
    · rw [hstore, same, before, hrewrites, hmoved]
      exact h.absent
    · rw [hstore, same, before, hrewrites, hmoved]
      exact h.present
  | created unwritten undecided free stored first pending =>
    -- Nothing was written to the request before it was there.
    obtain ⟨hempty, hunmoved⟩ := h.absent (before ▸ free)
    refine ⟨fun habsent => (nomatch stored.symm.trans habsent), fun r' hr' => ?_⟩
    obtain rfl := Option.some.inj (stored.symm.trans hr')
    rw [rewrites_visited, unwritten, hempty, moved_visited, first]
    exact ⟨rfl, iff_of_true pending (not_or.2 ⟨hunmoved, undecided⟩)⟩
  | written rewrite hold pending stored next decided =>
    obtain ⟨hcount, hstatus⟩ := h.present _ (before ▸ hold)
    refine ⟨fun habsent => (nomatch stored.symm.trans habsent), fun r' hr' => ?_⟩
    obtain rfl := Option.some.inj (stored.symm.trans hr')
    rw [rewrites_visited, rewrite, moved_visited, next, hcount, decided, not_or]
    exact ⟨by simp, (and_iff_right (hstatus.1 pending)).symm⟩

theorem tallies_run (id : String) (moves : List Move) : ((start .empty).run moves).Tallies id := by
  refine (run_keeps (P := Tallies id) ?step (sound_start .empty) ?start moves).2
  case start =>
    refine ⟨fun _ => ⟨rfl, ?_⟩, fun r hr => by cases hr⟩
    rintro ⟨p, hp, -⟩
    cases hp
  case step =>
    intro w w' sound h hs
    cases hs with
    | demanded d => exact ⟨h.absent, h.present⟩
    | resumed now found replied => exact ⟨h.absent, h.present⟩
    | visited found idle asked served before => exact h.visited sound found asked served before

/-- **Only well-formed requests live.** However calls interleave over a store that was empty, and
whatever the network answers: every stored request is well-formed, and so is every request that the
network is or was asked about; a stored request has as its revision the number of writes that were
made to it, and it is pending as long as none of them has moved its status. -/
theorem wellFormed_run (moves : List Move) :
    let w := (start .empty).run moves
    (∀ id r, w.store.requests.get? id = some r →
      r.WellFormed ∧ r.revision.toNat = (w.rewrites id).length ∧
        (r.status = .pending ↔ ¬ w.Moved id)) ∧
      (∀ (i : Nat) (t : Task) (id : String) (r : VerificationRequest), w.tasks[i]? = some t →
        t.call = .dispatching id r → r.WellFormed) ∧
      ∀ i v r, (i, v) ∈ w.visits → v.access = .dispatch r → r.WellFormed := by
  intro w
  have h : w.WellFormed :=
    (run_keeps (fun _ _ sound h hs => WellFormed.step sound h hs) (sound_start .empty)
      wellFormed_start moves).2
  refine ⟨fun id r hr => ⟨h.stored id r hr, (tallies_run id moves).present r hr⟩, h.asking, ?_⟩
  exact fun i v r hv haccess => h.asked (i, v) hv r haccess

end Session

end Lifecycle

end SealedCustody
