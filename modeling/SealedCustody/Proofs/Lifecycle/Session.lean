import SealedCustody.Proofs.Lifecycle.Course

/-!
# Calls side by side

Any number of calls run over one store, each at its own pace. A session goes on by one move at a
time: a client makes a demand, a call accesses the store, the network answers a call, or a call
takes the reply it was given. Nothing orders the moves of different calls, a call may rest for ever
between two of its moves, and the network may answer anything, so the runs of a session are all
interleavings.

The network is asked when a call comes to its round and answers at a later move; the events of a
reply are announced when the reply is taken, which may be long after the store was changed.

Each task of a session runs a course (`Session.Sound`), whatever the others do, so what a call does
is proved of courses and what its rivals do to it of sessions.
-/

namespace SealedCustody.Lifecycle

open Store (Visit)

/-- A call that was started, for what demand, and the reply that it has been given and not yet
taken. -/
structure Task where
  demand : Demand
  call : Call
  reply : Option Reply

/-- Calls that run side by side: the store, the calls in the order they were started, all visits so
far, each with the number of the task that made it, and all events so far. -/
structure Session where
  store : Store
  tasks : List Task
  visits : List (Nat × Visit)
  events : List Event

namespace Session

/-- What happens next. -/
inductive Move where
  /-- A client makes a demand. -/
  | demand (d : Demand)
  /-- A task accesses the store. -/
  | access (task : Nat) (now : Instant)
  /-- The network answers the round of a task. -/
  | answer (task : Nat) (result : Except Error Outcome)
  /-- A task takes the reply it was given. -/
  | resume (task : Nat) (now : Instant)

/-- A session in which no demand was made yet. -/
def start (s : Store) : Session := ⟨s, [], [], []⟩

/-- The session with one more demand. -/
def demanded (w : Session) (d : Demand) : Session :=
  { w with tasks := w.tasks ++ [⟨d, d.call, none⟩] }

/-- The session after a visit of a task. -/
def visited (w : Session) (i : Nat) (t : Task) (v : Visit) : Session :=
  { w with
    store := v.after
    tasks := w.tasks.set i { t with reply := some v.reply }
    visits := w.visits ++ [(i, v)] }

/-- The session after a task has taken its reply. -/
def resumed (w : Session) (i : Nat) (t : Task) (reply : Reply) (now : Instant) : Session :=
  { w with
    tasks := w.tasks.set i ⟨t.demand, (t.call.resume now reply).1, none⟩
    events := w.events ++ (t.call.resume now reply).2 }

/-- The session after a move; a move that is not open to its task changes nothing. -/
def move (w : Session) : Move → Session
  | .demand d => w.demanded d
  | .access i now =>
    match w.tasks[i]? with
    | some ⟨d, call, none⟩ =>
      match call.access? with
      | some a =>
        match w.store.perform now a with
        | (some reply, s) => w.visited i ⟨d, call, none⟩ ⟨a, reply, w.store, s⟩
        | (none, _) => w
      | none => w
    | _ => w
  | .answer i result =>
    match w.tasks[i]? with
    | some ⟨d, .dispatching id r, none⟩ =>
      w.visited i ⟨d, .dispatching id r, none⟩ ⟨.dispatch r, .outcome result, w.store, w.store⟩
    | _ => w
  | .resume i now =>
    match w.tasks[i]? with
    | some ⟨d, call, some reply⟩ => w.resumed i ⟨d, call, some reply⟩ reply now
    | _ => w

/-- The session after some moves. -/
def run (w : Session) (moves : List Move) : Session := moves.foldl move w

/-! ## What a move can do -/

/-- A move that does something. -/
inductive Step (w : Session) : Session → Prop where
  | demanded (d : Demand) : Step w (w.demanded d)
  | visited {i : Nat} {t : Task} {v : Visit} (found : w.tasks[i]? = some t) (idle : t.reply = none)
      (asked : t.call.access? = some v.access) (served : v.Served) (before : v.before = w.store) :
      Step w (w.visited i t v)
  | resumed {i : Nat} {t : Task} {reply : Reply} (now : Instant) (found : w.tasks[i]? = some t)
      (replied : t.reply = some reply) : Step w (w.resumed i t reply now)

theorem move_eq_or_step (w : Session) (m : Move) : w.move m = w ∨ w.Step (w.move m) := by
  cases m with
  | demand d => exact Or.inr (.demanded d)
  | access i now =>
    simp only [move]
    split
    · rename_i d call found
      split
      · rename_i a asked
        split
        · rename_i reply s performed
          exact Or.inr (.visited found rfl asked (.store performed) rfl)
        · exact Or.inl rfl
      · exact Or.inl rfl
    · exact Or.inl rfl
  | answer i result =>
    simp only [move]
    split
    · rename_i d id r found
      exact Or.inr (.visited found rfl rfl (.network w.store r result) rfl)
    · exact Or.inl rfl
  | resume i now =>
    simp only [move]
    split
    · rename_i d call reply found
      exact Or.inr (.resumed now found rfl)
    · exact Or.inl rfl

/-- Every move leaves the requests later than it found them. -/
theorem Step.later {w w' : Session} (h : w.Step w') : w.store.Later w'.store := by
  cases h with
  | demanded d => exact .refl _
  | visited found idle asked served before => exact before ▸ served.later
  | resumed now found replied => exact .refl _

/-- The task at a place keeps its demand, and what was visited stays visited. -/
def Grows (w w' : Session) : Prop :=
  (∀ (i : Nat) (t : Task), w.tasks[i]? = some t →
      ∃ t' : Task, w'.tasks[i]? = some t' ∧ t'.demand = t.demand) ∧
    ∀ p ∈ w.visits, p ∈ w'.visits

theorem getElem?_demanded {w : Session} (d : Demand) {i : Nat} {t : Task}
    (h : w.tasks[i]? = some t) : (w.demanded d).tasks[i]? = some t := by
  rw [demanded, List.getElem?_append_left (List.getElem?_eq_some_iff.1 h).1, h]

/-- A task may be replaced by a later stage of itself. -/
theorem exists_getElem?_set {ts : List Task} {i : Nat} {t t' : Task} (found : ts[i]? = some t)
    (same : t'.demand = t.demand) (j : Nat) (u : Task) (hu : ts[j]? = some u) :
    ∃ u', (ts.set i t')[j]? = some u' ∧ u'.demand = u.demand := by
  rw [List.getElem?_set]
  by_cases hij : i = j
  · subst hij
    rw [found] at hu
    cases hu
    have hlt := (List.getElem?_eq_some_iff.1 found).1
    exact ⟨t', by rw [if_pos rfl, if_pos hlt], same⟩
  · exact ⟨u, by rw [if_neg hij, hu], rfl⟩

theorem Step.grows {w w' : Session} (h : w.Step w') : w.Grows w' := by
  cases h with
  | demanded d =>
    exact ⟨fun i t hi => ⟨t, getElem?_demanded d hi, rfl⟩, fun p hp => hp⟩
  | visited found idle asked served before =>
    exact ⟨exists_getElem?_set found rfl, fun p hp => List.mem_append_left _ hp⟩
  | resumed now found replied => exact ⟨exists_getElem?_set found rfl, fun p hp => hp⟩

/-! ## The task at a place -/

/-- The visits of one task. -/
def visitsOf (w : Session) (i : Nat) : List Visit :=
  w.visits.filterMap fun p => if p.1 = i then some p.2 else none

theorem mem_visitsOf {w : Session} {i : Nat} {v : Visit} :
    v ∈ w.visitsOf i ↔ (i, v) ∈ w.visits := by
  unfold visitsOf
  rw [List.mem_filterMap]
  constructor
  · rintro ⟨⟨j, u⟩, hmem, hsome⟩
    by_cases hj : j = i
    · rw [if_pos hj] at hsome
      cases hsome
      exact hj ▸ hmem
    · rw [if_neg hj] at hsome
      cases hsome
  · intro hmem
    exact ⟨(i, v), hmem, if_pos rfl⟩

theorem visitsOf_visited (w : Session) (i : Nat) (t : Task) (v : Visit) (j : Nat) :
    (w.visited i t v).visitsOf j = if i = j then w.visitsOf j ++ [v] else w.visitsOf j := by
  unfold visitsOf visited
  rw [List.filterMap_append]
  by_cases hij : i = j
  · rw [if_pos hij]
    simp [hij]
  · rw [if_neg hij]
    simp [hij]

/-- After one task was replaced, the task at a place is the new one or an old one elsewhere. -/
theorem getElem?_set_cases {ts : List Task} {i j : Nat} {t t' : Task}
    (h : (ts.set i t)[j]? = some t') : (i = j ∧ t' = t) ∨ (i ≠ j ∧ ts[j]? = some t') := by
  rw [List.getElem?_set] at h
  by_cases hij : i = j
  · rw [if_pos hij] at h
    split at h
    · exact Or.inl ⟨hij, (Option.some.inj h).symm⟩
    · cases h
  · rw [if_neg hij] at h
    exact Or.inr ⟨hij, h⟩

/-- After a demand, the task at a place is the new one at the end or an old one before it. -/
theorem getElem?_demanded_cases {w : Session} {d : Demand} {j : Nat} {t : Task}
    (h : (w.demanded d).tasks[j]? = some t) :
    w.tasks[j]? = some t ∨ (j = w.tasks.length ∧ t = ⟨d, d.call, none⟩) := by
  rw [demanded, List.getElem?_append] at h
  split at h
  · exact Or.inl h
  · rename_i hlen
    rw [List.getElem?_singleton] at h
    split at h
    · exact Or.inr ⟨by omega, (Option.some.inj h).symm⟩
    · cases h

/-! ## Every task runs its course -/

/-- Each task has made the visits of a course of its demand, and no other visits were made. -/
structure Sound (w : Session) : Prop where
  course : ∀ i t, w.tasks[i]? = some t → Course t.demand (w.visitsOf i) t.call t.reply
  owned : ∀ i v, (i, v) ∈ w.visits → i < w.tasks.length

theorem sound_start (s : Store) : (start s).Sound where
  course := by intro i t h; cases h
  owned := by intro i v h; cases h

theorem Sound.demanded {w : Session} (h : w.Sound) (d : Demand) : (w.demanded d).Sound where
  course := by
    intro i t ht
    rcases getElem?_demanded_cases ht with hold | ⟨rfl, rfl⟩
    · exact h.course i t hold
    · -- The new task stands past all tasks that have made visits.
      have hnone : (w.demanded d).visitsOf w.tasks.length = [] := by
        rw [List.eq_nil_iff_forall_not_mem]
        intro v hv
        exact absurd (h.owned _ v (mem_visitsOf.1 hv)) (Nat.lt_irrefl _)
      rw [hnone]
      exact .start
  owned := by
    intro i v hv
    have hlt := h.owned i v hv
    rw [Session.demanded, List.length_append]
    omega

theorem Sound.visited {w : Session} (h : w.Sound) {i : Nat} {t : Task} {v : Visit}
    (found : w.tasks[i]? = some t) (idle : t.reply = none)
    (asked : t.call.access? = some v.access) (served : v.Served) : (w.visited i t v).Sound where
  course := by
    intro j t' ht'
    rw [visitsOf_visited]
    rcases getElem?_set_cases ht' with ⟨rfl, rfl⟩ | ⟨hij, hold⟩
    · rw [if_pos rfl]
      exact .visit (idle ▸ h.course i t found) asked served
    · rw [if_neg hij]
      exact h.course j t' hold
  owned := by
    intro j u hu
    rw [Session.visited, List.length_set]
    rcases List.mem_append.1 hu with hold | hnew
    · exact h.owned j u hold
    · cases List.mem_singleton.1 hnew
      exact (List.getElem?_eq_some_iff.1 found).1

theorem Sound.resumed {w : Session} (h : w.Sound) {i : Nat} {t : Task} {reply : Reply}
    (now : Instant) (found : w.tasks[i]? = some t) (replied : t.reply = some reply) :
    (w.resumed i t reply now).Sound where
  course := by
    intro j t' ht'
    rcases getElem?_set_cases ht' with ⟨rfl, rfl⟩ | ⟨hij, hold⟩
    · exact .resume now (replied ▸ h.course i t found)
    · exact h.course j t' hold
  owned := by
    intro j u hu
    rw [Session.resumed, List.length_set]
    exact h.owned j u hu

theorem Sound.step {w w' : Session} (h : w.Sound) (hs : w.Step w') : w'.Sound := by
  cases hs with
  | demanded d => exact h.demanded d
  | visited found idle asked served before => exact h.visited found idle asked served
  | resumed now found replied => exact h.resumed now found replied

/-- What every step of a sound session keeps is kept by every run. -/
theorem run_keeps {P : Session → Prop}
    (step : ∀ w w', w.Sound → P w → w.Step w' → P w') {w : Session} (sound : w.Sound) (h : P w)
    (moves : List Move) : (w.run moves).Sound ∧ P (w.run moves) := by
  induction moves generalizing w with
  | nil => exact ⟨sound, h⟩
  | cons m rest ih =>
    rw [run, List.foldl_cons]
    -- Soundness goes along, for the step to use.
    rcases w.move_eq_or_step m with hsame | hstep
    · rw [hsame]
      exact ih sound h
    · exact ih (sound.step hstep) (step w _ sound h hstep)

theorem sound_run (s : Store) (moves : List Move) : ((start s).run moves).Sound :=
  (run_keeps (P := fun _ => True) (fun _ _ _ _ _ => trivial) (sound_start s) trivial moves).1

/-- Whatever happens in a session, the requests only move forward. -/
theorem later_run {w : Session} (sound : w.Sound) (moves : List Move) :
    w.store.Later (w.run moves).store :=
  (run_keeps (P := fun w' => w.store.Later w'.store) (fun _ _ _ hlater hs => hlater.trans hs.later)
    sound (.refl _) moves).2

end Session

end SealedCustody.Lifecycle
