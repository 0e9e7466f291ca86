import SealedCustody.Proofs.Lifecycle.Session
import SealedCustody.Proofs.Store.Revision

/-!
# What a call goes by

A call that asks the network about a request, commits a status to it or writes an amended record goes
by the request as it has last read it: since then it has asked nothing but the network
(`Course.informed`).

What others did meanwhile stands between the visits of the call. All visits of a session make one
history of its store (`Session.history_run`), so whatever became of the request since it was read is
the doing of the visits in between (`Session.exists_between`, `Store.History.replaced`).
-/

namespace SealedCustody

open Lifecycle

namespace Store

/-! ## Histories in parts -/

theorem History.concat {s s' : Store} {vs : List Visit} (h : History s vs s') {v : Visit}
    (served : v.Served) (before : v.before = s') : History s (vs ++ [v]) v.after := by
  induction h with
  | nil s =>
    subst before
    exact .cons served (.nil _)
  | cons first rest ih => exact .cons first (ih before)

theorem History.split {s s' : Store} {us vs : List Visit} (h : History s (us ++ vs) s') :
    ∃ m, History s us m ∧ History m vs s' := by
  induction us generalizing s with
  | nil => exact ⟨s, .nil s, h⟩
  | cons u us ih =>
    obtain ⟨rfl, served, rest⟩ := h.cons_inv
    obtain ⟨m, hus, hvs⟩ := ih rest
    exact ⟨m, .cons served hus, hvs⟩

namespace Visit

/-- The visit read a request under an id. -/
def Reads (v : Visit) (id : String) (r : VerificationRequest) : Prop :=
  v.access = .get (.byId id) ∧ ∃ rest, v.reply = .requests (.ok (r :: rest))

/-- What is read under an id is stored under it, and stays. -/
theorem Reads.stored {v : Visit} {id : String} {r : VerificationRequest} (h : v.Reads id r)
    (served : v.Served) (keyed : v.before.Keyed) :
    v.before.requests.get? id = some r ∧ v.after = v.before := by
  obtain ⟨haccess, rest, hreply⟩ := h
  have hget := served.reply_eq
  rw [haccess] at hget
  have hread : v.before.get (.byId id) = .ok (r :: rest) :=
    (Reply.requests.inj (hreply.symm.trans hget)).symm
  obtain ⟨hid, k, hk⟩ := mem_get_byId hread List.mem_cons_self
  obtain rfl : k = id := (keyed k r hk).symm.trans hid
  exact ⟨hk, served.unchanged (by rw [written?, hreply])⟩

/-- The visit replaced the record of a request by another. -/
def Replaces (v : Visit) (id : String) : Prop :=
  ∃ record r, v.access = .update record ∧ record.id = id ∧ v.reply = .request (.ok r)

/-- A visit that leaves a stored request pending has replaced it or not touched it. -/
theorem Served.replaces_or_same {v : Visit} (h : v.Served) {id : String}
    {r r' : VerificationRequest} (found : v.before.requests.get? id = some r)
    (left : v.after.requests.get? id = some r') (pending : r'.status = .pending) :
    v.Replaces id ∨ r' = r := by
  rcases h.writes_or_unchanged with ⟨x, hx, hwrites⟩ | ⟨-, hsame⟩
  · obtain ⟨access, reply, before, after⟩ := v
    dsimp only at hwrites found left
    have hother {k : String} (hk : k ≠ id) (hput : after = before.put k x) : r' = r := by
      rw [hput, get?_put, if_neg hk, found] at left
      exact (Option.some.inj left).symm
    cases hwrites with
    | create free =>
      refine Or.inr (hother ?_ rfl)
      rintro rfl
      rw [free] at found
      cases found
    | @update stored record found' =>
      by_cases hid : record.id = id
      · exact Or.inl ⟨record, _, rfl, hid, reply_of_written? hx⟩
      · exact Or.inr (hother hid rfl)
    | @compareAndSet k stored next now found' pending' final room =>
      by_cases hid : k = id
      · -- What was committed is not pending.
        rw [get?_put, if_pos hid] at left
        cases left
        exact absurd pending final
      · exact Or.inr (hother hid rfl)
  · rw [hsame, found] at left
    exact Or.inr (Option.some.inj left).symm

end Visit

/-- A request that has changed and is pending still was replaced on the way. -/
theorem History.replaced {s s' : Store} {vs : List Visit} (h : History s vs s') {id : String}
    {r r' : VerificationRequest} (found : s.requests.get? id = some r)
    (found' : s'.requests.get? id = some r') (pending : r'.status = .pending) (changed : r' ≠ r) :
    ∃ v ∈ vs, v.Replaces id := by
  induction h generalizing r with
  | nil s =>
    rw [found] at found'
    exact absurd (Option.some.inj found').symm changed
  | @cons v vs s' served rest ih =>
    obtain ⟨x, hx, hevolves⟩ := served.later id r found
    obtain ⟨y, hy, hevolves'⟩ := rest.later id x hx
    obtain rfl : y = r' := Option.some.inj (hy.symm.trans found')
    -- A status that is committed stays, so the request was pending all the way.
    have hpending : x.status = .pending := by
      by_contra hx'
      exact hx' (hevolves'.eq_of_ne_pending hx' ▸ pending)
    rcases served.replaces_or_same found hx hpending with hreplaces | rfl
    · exact ⟨v, List.mem_cons_self, hreplaces⟩
    · obtain ⟨u, hu, hreplaces⟩ := ih hx found' changed
      exact ⟨u, List.mem_cons_of_mem _ hu, hreplaces⟩

end Store

namespace Lifecycle

open Store (Visit History)

/-! ## The last reading -/

/-- The request was read under an id, and since then nothing but the network was asked. -/
def LastRead (vs : List Visit) (id : String) (current : VerificationRequest) : Prop :=
  ∃ earlier read later, vs = earlier ++ read :: later ∧ read.Reads id current ∧
    ∀ v ∈ later, ∃ r, v.access = .dispatch r

theorem LastRead.dispatched {vs : List Visit} {id : String} {current : VerificationRequest}
    (h : LastRead vs id current) {v : Visit} {r : VerificationRequest}
    (asked : v.access = .dispatch r) : LastRead (vs ++ [v]) id current := by
  obtain ⟨earlier, read, later, rfl, hreads, hlater⟩ := h
  refine ⟨earlier, read, later ++ [v], by rw [List.append_assoc, List.cons_append], hreads, ?_⟩
  intro u hu
  rcases List.mem_append.1 hu with hold | hnew
  · exact hlater u hold
  · rw [List.mem_singleton.1 hnew]
    exact ⟨r, asked⟩

/-- The call goes by what was last read of its request. -/
def Call.Informed (vs : List Visit) : Call → Prop
  | .dispatching id current | .committing id current _ _ => LastRead vs id current
  | .updating id record _ => ∃ current, LastRead vs id current ∧ record.revision = current.revision
  | _ => True

/-- A call that has just read its request goes by what it has read. -/
theorem Call.informed_afterRead {vs : List Visit} {id : String} {current : VerificationRequest}
    (h : LastRead vs id current) (now : Instant) (purpose : Purpose) :
    (Call.afterRead id current now purpose).Informed vs := by
  cases purpose with
  | resolve decision =>
    simp only [afterRead]
    split
    · trivial
    · cases decision with
      | accept => exact h
      | reject => exact h
  | cancel =>
    simp only [afterRead]
    split
    · trivial
    · exact h
  | amend criteria status =>
    simp only [afterRead]
    split
    · trivial
    · split
      · trivial
      · exact ⟨current, h, rfl⟩

/-- Whatever others do, a call goes by what it has last read. -/
theorem Course.informed {d : Demand} {vs : List Visit} {call : Call} (h : Course d vs call none) :
    call.Informed vs := by
  refine h.idle_induction ?start ?step
  case start =>
    rcases d.call_cases with ⟨e, he⟩ | ⟨r, hr⟩ | ⟨k, purpose, hk⟩
    · rw [he]; trivial
    · rw [hr]; trivial
    · rw [hk]; trivial
  case step =>
    intro vs call v now idle informed asked served
    have hresumed := Call.resumed asked served now
    generalize (call.resume now v.reply).1 = call' at hresumed ⊢
    generalize (call.resume now v.reply).2 = events at hresumed
    generalize hreply : v.reply = reply at hresumed
    cases hresumed with
    | @read id purpose current rest named =>
      refine Call.informed_afterRead ⟨vs, v, [], rfl, ⟨?_, rest, hreply⟩, ?_⟩ now purpose
      · exact (Option.some.inj asked).symm
      · intro u hu
        cases hu
    | dispatched => exact LastRead.dispatched informed (Option.some.inj asked).symm
    | created => trivial
    | committed => trivial
    | amended kept => trivial
    | withdrawing => trivial
    | failed refused silent => trivial

namespace Session

/-! ## The history of a session -/

theorem history_run (s : Store) (moves : List Move) :
    History s (((start s).run moves).visits.map Prod.snd) ((start s).run moves).store := by
  refine (run_keeps (P := fun w => History s (w.visits.map Prod.snd) w.store) ?_ (sound_start s)
    (.nil s) moves).2
  intro w w' sound history hs
  cases hs with
  | demanded d => exact history
  | resumed now found replied => exact history
  | visited found idle asked served before =>
    rw [visited, List.map_append]
    exact history.concat served before

/-- Between two visits of a task stand those that it made in between, and those of others. -/
theorem exists_between {w : Session} {i : Nat} {earlier later : List Visit} {u v : Visit}
    (h : w.visitsOf i = earlier ++ u :: later ++ [v]) :
    ∃ past between rest, w.visits = past ++ (i, u) :: (between ++ (i, v) :: rest) ∧
      (∀ x, (i, x) ∈ between → x ∈ later) ∧ ∀ x, (i, x) ∉ rest := by
  -- A visit of the list that belongs to the task is the one that was kept.
  have hown {p : Nat × Visit} {x : Visit}
      (hp : (if p.1 = i then some p.2 else none) = some x) : p = (i, x) := by
    split at hp
    · rename_i hi
      cases hp
      exact Prod.ext hi rfl
    · cases hp
  unfold visitsOf at h
  rw [List.append_assoc, List.filterMap_eq_append_iff] at h
  obtain ⟨past, tail, hvisits, -, htail⟩ := h
  rw [List.cons_append, List.filterMap_eq_cons_iff] at htail
  obtain ⟨skipped, p, tail', rfl, -, hp, htail'⟩ := htail
  rw [List.filterMap_eq_append_iff] at htail'
  obtain ⟨between, tail'', rfl, hbetween, htail''⟩ := htail'
  rw [List.filterMap_eq_cons_iff] at htail''
  obtain ⟨skipped', q, rest, rfl, hskipped, hq, hrest⟩ := htail''
  cases hown hp
  cases hown hq
  refine ⟨past ++ skipped, between ++ skipped', rest, by simp [hvisits], ?_, ?_⟩
  · intro x hx
    rcases List.mem_append.1 hx with hold | hnew
    · rw [← hbetween]
      exact List.mem_filterMap.2 ⟨(i, x), hold, if_pos rfl⟩
    · exact absurd (hskipped _ hnew) (by simp)
  · intro x hx
    rw [List.filterMap_eq_nil_iff] at hrest
    exact absurd (hrest _ hx) (by simp)

end Session

end Lifecycle

end SealedCustody
