import SealedCustody.Mesh.Run
import SealedCustody.Proofs.Bootstrap.Backoff

/-!
# The bootstrap tasks of a mesh

The tasks of a mesh that keep nodes connected are moved on in the world as it is then. Whatever the
worlds, such a task lives as some diary says (`Keeper.Follows`): what it meets with is what it asked for,
an event, or the stop of its node, and while it sleeps it does so for as long as its last pause. A task
that is told to stop while it dials, or counts connections, does not look; the stop is there to be seen
still when it looks next, and it ends without another dial (`Keeper.Follows.exists_resumeIn_told`). With
that, all that is known of diaries is known of the tasks of a mesh (`Bootstrap.backs_off_until_ended`).
-/

namespace SealedCustody

namespace Bootstrap

variable {b : Bootstrap} {i : Input} {fresh : EventReceiver} {t : Bootstrap × Action}

/-- What a task is doing in its phase. -/
def due (b : Bootstrap) : Action :=
  match b.phase with
  | .dialing => .dial
  | .counting p => .count p
  | .pausing => .pause b.delay
  | .watching _ | .stopped => .wait

theorem Turn.due_eq (h : Turn b fresh i t) : t.1.due = t.2 := by
  cases h with
  | _ => rfl

theorem due_eq_pause_iff {s : Nat} : b.due = .pause s ↔ b.phase = .pausing ∧ b.delay = s := by
  unfold due
  cases b.phase with
  | pausing => simp
  | _ => simp

/-- What an action comes to. -/
inductive Action.Yields : Action → Input → Prop where
  | dialed (r : Except Error Connection) : Yields .dial (.dialed r)
  | counted (p : PeerId) {r : Except Error Nat} (genuine : ∀ e, r = .error e → e = .shutdown) :
    Yields (.count p) (.counted r)
  | paused (seconds : Nat) : Yields (.pause seconds) .paused

theorem Action.Yields.genuine {action : Action} (h : action.Yields i) {e : Error}
    (hi : i = .counted (.error e)) : e = .shutdown := by
  cases h with
  | counted p genuine => exact genuine e (Input.counted.inj hi)
  | _ => cases hi

/-- A task waits for what it is doing to come to something. -/
theorem awaits_of_yields (h : b.due.Yields i) : b.phase.awaits i = true := by
  obtain ⟨phase, delay, receiver⟩ := b
  cases phase with
  | dialing =>
    cases h
    rfl
  | counting p =>
    cases h
    rfl
  | pausing =>
    cases h
    rfl
  | watching p => cases h
  | stopped => cases h

/-- How much a task still meets with, at most, once its node is told to stop. -/
def Phase.errands : Phase → Nat
  | .dialing | .counting _ => 2
  | .watching _ | .pausing => 1
  | .stopped => 0

theorem errands_le_two (phase : Phase) : phase.errands ≤ 2 := by
  unfold Phase.errands
  split
  · exact Nat.le_refl 2
  · exact Nat.le_refl 2
  · exact Nat.le_succ 1
  · exact Nat.le_succ 1
  · exact Nat.zero_le 2

theorem errands_pos_of_awaits {phase : Phase} (h : phase.awaits i = true) : 0 < phase.errands := by
  cases phase with
  | stopped => cases h
  | _ => exact Nat.succ_pos _

/-- A task that looks whether its node is told to stop, and is told so, has less to meet with after each
thing, and does not dial. -/
theorem Turn.winds_up (h : Turn b fresh i t) (hawaits : b.phase.awaits i = true)
    (htold : b.phase.awaits .shutdown = true → i = .shutdown) :
    t.1.phase.errands < b.phase.errands ∧ t.2 ≠ .dial := by
  obtain ⟨phase, delay, receiver⟩ := b
  cases h with
  | ended ends => exact ⟨errands_pos_of_awaits hawaits, nofun⟩
  | setBack setback =>
    cases setback with
    | failed passes => exact ⟨Nat.lt_succ_self 1, nofun⟩
    | gone p => cases htold rfl
    | missing p => exact ⟨Nat.lt_succ_self 1, nofun⟩
  | connected dialing c =>
    cases dialing
    exact ⟨Nat.lt_succ_self 1, nofun⟩
  | rested pausing =>
    cases pausing
    cases htold rfl
  | watching seen before undisturbed =>
    rcases before with hphase | hphase
    · cases hphase
      obtain rfl := htold rfl
      rcases seen with ⟨r, hr⟩ | ⟨n, hn⟩
      · cases hr
      · cases hn
    · cases hphase
      exact ⟨Nat.lt_succ_self 1, nofun⟩
  | counting before =>
    cases before
    cases htold rfl

end Bootstrap

namespace World

open Bootstrap

variable {n : NodeId} {a : Address} {action : Action} {α : Type}

/-- A task of a mesh is at what it is to do, or waits for the answer. -/
inductive Busy (n : NodeId) (a : Address) : Action → Option (Job Input) → Prop where
  | due (action : Action) : Busy n a action (keeperWork n a action)
  | dialing (wait : Wait) :
    Busy n a .dial (some (.blocked (.dial n a none) wait fun r => .done (.dialed r)))
  | pausing (seconds : Nat) (wait : Wait) :
    Busy n a (.pause seconds) (some (.blocked (.sleep (seconds * 1000)) wait fun _ => .done .paused))

theorem begin_query (w : World) (q : Query) (f : q.Answer → α) :
    (∃ r, (begin ((Program.query q).bind fun r => .done (f r)) w).1 = .finished (f r)) ∨
      ∃ wait, (begin ((Program.query q).bind fun r => .done (f r)) w).1 =
        .blocked q wait fun r => .done (f r) := by
  change (∃ r, (begin (.ask q fun r => .done (f r)) w).1 = .finished (f r)) ∨
    ∃ wait, (begin (.ask q fun r => .done (f r)) w).1 = .blocked q wait fun r => .done (f r)
  unfold begin
  split
  · exact Or.inl ⟨_, rfl⟩
  · split
    · exact Or.inl ⟨_, rfl⟩
    · exact Or.inr ⟨_, rfl⟩

theorem resume_query (w : World) (q : Query) (wait : Wait) (f : q.Answer → α) :
    (∃ r, (w.resume (.blocked q wait fun r => .done (f r))).2.1 = .finished (f r)) ∨
      (w.resume (.blocked q wait fun r => .done (f r))).2.1 = .blocked q wait fun r => .done (f r) := by
  unfold resume
  dsimp only
  split
  · exact Or.inl ⟨_, rfl⟩
  · exact Or.inr rfl

theorem shutdown_of_connections {w : World} {e : Error} (h : w.connections n = .error e) :
    e = .shutdown := by
  unfold connections at h
  split at h
  · cases h
  · exact (Except.error.inj h).symm

theorem Busy.resume {t : Job Input} (h : Busy n a action (some t)) (w : World) :
    (∃ i, (w.resume t).2.1 = .finished i ∧ action.Yields i) ∨ Busy n a action (some (w.resume t).2.1) := by
  generalize hwork : some t = work at h
  cases h with
  | due action =>
    cases action with
    | dial =>
      cases hwork
      rcases w.begin_query (.dial n a none) Input.dialed with ⟨r, hr⟩ | ⟨wait, hwait⟩
      · exact Or.inl ⟨_, hr, .dialed r⟩
      · exact Or.inr (hwait ▸ .dialing wait)
    | count p =>
      -- this is answered at once
      cases hwork
      refine Or.inl ⟨_, rfl, .counted p fun e he => ?_⟩
      cases hconnections : w.connections n with
      | ok cs =>
        rw [hconnections] at he
        cases he
      | error e' =>
        rw [hconnections] at he
        cases he
        exact shutdown_of_connections hconnections
    | pause seconds =>
      cases hwork
      rcases w.begin_query (.sleep (seconds * 1000)) fun _ => Input.paused with ⟨r, hr⟩ | ⟨wait, hwait⟩
      · exact Or.inl ⟨_, hr, .paused seconds⟩
      · exact Or.inr (hwait ▸ .pausing seconds wait)
    | wait => cases hwork
  | dialing wait =>
    cases hwork
    rcases w.resume_query (.dial n a none) wait Input.dialed with ⟨r, hr⟩ | hwait
    · exact Or.inl ⟨_, hr, .dialed r⟩
    · rw [hwait]
      exact Or.inr (.dialing wait)
  | pausing seconds wait =>
    cases hwork
    rcases w.resume_query (.sleep (seconds * 1000)) wait fun _ => Input.paused with ⟨r, hr⟩ | hwait
    · exact Or.inl ⟨_, hr, .paused seconds⟩
    · rw [hwait]
      exact Or.inr (.pausing seconds wait)

theorem not_busy_finished {i : Input} : ¬ Busy n a action (some (.finished i)) := by
  generalize hwork : some (Job.finished i) = work
  intro h
  cases h with
  | due action =>
    cases action with
    | _ => cases hwork
  | dialing wait => cases hwork
  | pausing seconds wait => cases hwork

theorem Busy.of_sleep {millis : Nat} {wait : Wait} {next : Unit → Program Input}
    (h : Busy n a action (some (.blocked (.sleep millis) wait next))) :
    ∃ s, action = .pause s ∧ millis = s * 1000 := by
  generalize hwork : some (Job.blocked (.sleep millis) wait next) = work at h
  cases h with
  | due action =>
    cases action with
    | _ => cases hwork
  | dialing wait => cases hwork
  | pausing seconds wait =>
    cases hwork
    exact ⟨seconds, rfl, rfl⟩

theorem heeds_eq (k : Keeper) : heeds k = k.state.phase.awaits .shutdown := by
  unfold heeds
  cases k.state.phase with
  | _ => rfl

/-- A node is told to stop. -/
def Told (w : World) (n : NodeId) : Prop :=
  ∃ node, w.nodes.get? n = some node ∧ node.office.any (·.stopping) = true

/-- A task does not hear that its node is told to stop, because it does not look or that is not so. -/
def Unaware (w : World) (k : Keeper) : Prop :=
  w.Told k.node → k.state.phase.awaits .shutdown = false

/-- What becomes of a task of a mesh that is moved on. -/
inductive Resumption (w : World) (k : Keeper) : Keeper → Prop where
  /-- It hears that its node is told to stop. -/
  | told {node : Node} (present : w.nodes.get? k.node = some node)
      (stopping : node.office.any (·.stopping) = true)
      (looks : k.state.phase.awaits .shutdown = true) :
    Resumption w k (Keeper.meet k node .shutdown)
  /-- What it does comes to something. -/
  | finished {node : Node} {t : Job Input} {i : Input} (present : w.nodes.get? k.node = some node)
      (unaware : w.Unaware k) (work : k.work = some t) (done : (w.resume t).2.1 = .finished i) :
    Resumption w k (Keeper.meet k node i)
  | unfinished {t : Job Input} (unaware : w.Unaware k) (work : k.work = some t)
      (undone : ∀ i, (w.resume t).2.1 ≠ .finished i) :
    Resumption w k { k with work := some (w.resume t).2.1 }
  /-- It finds something among the events. -/
  | received {node : Node} {p : PeerId} {r : Received} {receiver : EventReceiver}
      (present : w.nodes.get? k.node = some node) (unaware : w.Unaware k)
      (watching : k.state.phase = .watching p)
      (found : node.events.receive k.state.receiver = (r, receiver)) :
    Resumption w k (Keeper.meet { k with state := { k.state with receiver } } node (.received r))
  | unmoved (unaware : w.Unaware k) : Resumption w k k

theorem resumption (w : World) (k : Keeper) : Resumption w k (w.resumeKeeper k).2.1 := by
  unfold resumeKeeper
  cases hnode : w.nodes.get? k.node with
  | none =>
    refine .unmoved ?_
    rintro ⟨node, hnode', -⟩
    cases hnode.symm.trans hnode'
  | some node =>
    dsimp only
    by_cases htold : (heeds k && node.office.any (·.stopping)) = true
    · rw [if_pos htold]
      obtain ⟨hlooks, hstopping⟩ := Bool.and_eq_true_iff.1 htold
      exact .told hnode hstopping (heeds_eq k ▸ hlooks)
    · rw [if_neg htold]
      have hunaware : w.Unaware k := by
        rintro ⟨node', hnode', hstopping⟩
        cases hnode.symm.trans hnode'
        rwa [hstopping, Bool.and_true, heeds_eq, Bool.not_eq_true] at htold
      cases hwork : k.work with
      | some t =>
        dsimp only
        split
        · rename_i i w' hresume
          exact .finished hnode hunaware hwork (by rw [hresume])
        · rename_i moved t' w' hunfinished hresume
          obtain rfl : (w.resume t).2.1 = t' := by rw [hresume]
          exact .unfinished hunaware hwork hunfinished
      | none =>
        dsimp only
        split
        · exact .unmoved hunaware
        · rename_i p r receiver _ hwatching hfound
          exact .received hnode hunaware hwatching hfound
        · exact .unmoved hunaware

theorem Resumption.node_eq {w : World} {k k' : Keeper} (h : Resumption w k k') : k'.node = k.node := by
  cases h with
  | _ => rfl

end World

namespace Keeper

open Bootstrap World

variable {k : Keeper} {d : Diary}

/-- A task of a mesh has met with what a diary says, and is at what it is to do next. -/
structure Follows (k : Keeper) (d : Diary) : Prop where
  state : k.state = d.task
  work : Busy k.node k.address k.state.due k.work

/-- A task that meets with something it waits for goes by the diary in which that is entered. -/
theorem exists_follows_meet {w : World} {i : Input} {receiver : EventReceiver} (node : Node)
    (hstate : k.state = { d.task with receiver }) (hawaits : d.task.phase.awaits i = true)
    (hgenuine : ∀ e, i = .counted (.error e) → e = .shutdown) (haware : i = .shutdown ∨ w.Unaware k) :
    ∃ m, d.task.phase.awaits m.input = true ∧ (m.input = .shutdown ∨ w.Unaware k) ∧
      (World.Keeper.meet k node i).Follows (d.add m) := by
  let m : Encounter := ⟨i, receiver, node.events.subscribe, hgenuine⟩
  have hmeet : k.state.step node.events.subscribe i = d.meet m := by
    rw [hstate]
    rfl
  refine ⟨m, hawaits, haware, ?_⟩
  rcases d.add_cases m with ⟨hnot, -⟩ | ⟨-, hturn, hadd⟩
  · cases hnot.symm.trans hawaits
  · unfold World.Keeper.meet
    rw [hadd, hmeet]
    refine ⟨rfl, ?_⟩
    change Busy k.node k.address (d.meet m).1.due (keeperWork k.node k.address (d.meet m).2)
    rw [hturn.due_eq]
    exact .due _

/-- A task of a mesh that is moved on meets with nothing, or with something that it waits for; that is the
stop of its node if it hears of it. -/
theorem Follows.resume (h : k.Follows d) (w : World) :
    ((w.resumeKeeper k).2.1.Follows d ∧ w.Unaware k) ∨
      ∃ m, d.task.phase.awaits m.input = true ∧ (m.input = .shutdown ∨ w.Unaware k) ∧
        (w.resumeKeeper k).2.1.Follows (d.add m) := by
  have hstate : k.state = { d.task with receiver := k.state.receiver } := by rw [h.state]
  have hresumption : Resumption w k (w.resumeKeeper k).2.1 := w.resumption k
  generalize (w.resumeKeeper k).2.1 = k' at hresumption ⊢
  cases hresumption with
  | told present stopping looks =>
    exact Or.inr (exists_follows_meet _ hstate (h.state ▸ looks) nofun (Or.inl rfl))
  | finished present unaware work done =>
    rcases (work ▸ h.work).resume w with ⟨i, hi, hyields⟩ | hbusy
    · obtain rfl := Job.finished.inj (hi.symm.trans done)
      have hawaits : d.task.phase.awaits i = true := h.state ▸ awaits_of_yields hyields
      exact Or.inr (exists_follows_meet _ hstate hawaits (fun e => hyields.genuine) (Or.inr unaware))
    · exact absurd (done ▸ hbusy) not_busy_finished
  | unfinished unaware work undone =>
    rcases (work ▸ h.work).resume w with ⟨i, hi, -⟩ | hbusy
    · exact absurd hi (undone i)
    · exact Or.inl ⟨⟨h.state, hbusy⟩, unaware⟩
  | @received node p r receiver present unaware watching found =>
    have hawaits : d.task.phase.awaits (.received r) = true := by
      rw [← h.state, watching]
      rfl
    exact Or.inr (exists_follows_meet (k := { k with state := { k.state with receiver } }) node
      (by rw [h.state]) hawaits nofun (Or.inr unaware))
  | unmoved unaware => exact Or.inl ⟨h, unaware⟩

/-- A task that looks whether its node is told to stop ends if that is so. -/
theorem Follows.stopped_resume (h : k.Follows d) {w : World} (hw : w.Told k.node)
    (hawaits : k.state.phase.awaits .shutdown = true) :
    (w.resumeKeeper k).2.1.state.phase = .stopped := by
  have haware : ¬ w.Unaware k := fun hunaware => by cases (hunaware hw).symm.trans hawaits
  rcases h.resume w with ⟨-, hunaware⟩ | ⟨m, hm, htold, hmet⟩
  · exact absurd hunaware haware
  · rw [hmet.state, Diary.stopped_add_iff]
    exact Or.inr ⟨hm, Or.inl (htold.resolve_right haware)⟩

/-- Moves a task of a mesh on in worlds, one after the other. -/
def resumeIn (k : Keeper) (ws : List World) : Keeper := ws.foldl (fun k w => (w.resumeKeeper k).2.1) k

theorem node_resumeIn (k : Keeper) (ws : List World) : (k.resumeIn ws).node = k.node := by
  induction ws generalizing k with
  | nil => rfl
  | cons w ws ih => exact (ih _).trans (w.resumption k).node_eq

/-- Whatever the worlds in which a task of a mesh is moved on, it lives as some diary says. -/
theorem Follows.exists_resumeIn (h : k.Follows d) (ws : List World) :
    ∃ ms : List Encounter, (k.resumeIn ws).Follows (ms.foldl Diary.add d) := by
  induction ws generalizing k d with
  | nil => exact ⟨[], h⟩
  | cons w ws ih =>
    rcases h.resume w with ⟨hsame, -⟩ | ⟨m, -, -, hmet⟩
    · exact ih hsame
    · obtain ⟨ms, hms⟩ := ih hmet
      exact ⟨m :: ms, hms⟩

/-- A task of a mesh sleeps for as long as the last pause in its diary. -/
theorem Follows.sleeps (h : k.Follows d) (hkept : d.Kept) {millis : Nat} {wait : Wait}
    {next : Unit → Program Input} (hwork : k.work = some (.blocked (.sleep millis) wait next)) :
    ∃ i older, d.entries = ⟨i, .pause (min (2 ^ pauses older) 60)⟩ :: older ∧
      millis = min (2 ^ pauses older) 60 * 1000 := by
  have hbusy : Busy k.node k.address d.task.due k.work := h.state ▸ h.work
  rw [hwork] at hbusy
  obtain ⟨seconds, hdue, rfl⟩ := hbusy.of_sleep
  obtain ⟨hpausing, rfl⟩ := due_eq_pause_iff.1 hdue
  obtain ⟨i, older, hentries, -, hdelay⟩ := hkept.now hpausing
  exact ⟨i, older, hdelay ▸ hentries, congrArg (· * 1000) hdelay⟩

/-- Once its node is told to stop, a task of a mesh meets with two more things at most, and does not dial
any more. -/
theorem Follows.exists_resumeIn_told (h : k.Follows d) {ws : List World}
    (hws : ∀ w ∈ ws, w.Told k.node) :
    ∃ (ms : List Encounter) (new : List Entry),
      (k.resumeIn ws).Follows (ms.foldl Diary.add d) ∧
      (ms.foldl Diary.add d).entries = new ++ d.entries ∧ (∀ e ∈ new, e.action ≠ .dial) ∧
      new.length + (ms.foldl Diary.add d).task.phase.errands ≤ d.task.phase.errands := by
  induction ws generalizing k d with
  | nil => exact ⟨[], [], h, rfl, nofun, Nat.le_of_eq (Nat.zero_add _)⟩
  | cons w ws ih =>
    have hws' : ∀ w' ∈ ws, w'.Told (w.resumeKeeper k).2.1.node :=
      fun w' hw' => (w.resumption k).node_eq ▸ hws w' (List.mem_cons_of_mem w hw')
    rcases h.resume w with ⟨hsame, -⟩ | ⟨m, hawaits, htold, hmet⟩
    · exact ih hsame hws'
    · obtain ⟨ms, new, hfollows, hnew, hidle, hlength⟩ := ih hmet hws'
      rcases d.add_cases m with ⟨hnot, -⟩ | ⟨-, hturn, hadd⟩
      · cases hnot.symm.trans hawaits
      · have hheard : d.task.phase.awaits .shutdown = true → m.input = .shutdown := fun hlooks =>
          htold.resolve_right fun hunaware => by
            cases (h.state ▸ hunaware (hws w List.mem_cons_self)).symm.trans hlooks
        obtain ⟨hfewer, hcalm⟩ := hturn.winds_up hawaits hheard
        refine ⟨m :: ms, new ++ [⟨m.input, (d.meet m).2⟩], hfollows, ?_, ?_, ?_⟩
        · rw [List.foldl_cons, hnew, hadd, List.append_assoc]
          rfl
        · intro e he
          rcases List.mem_append.1 he with he | he
          · exact hidle e he
          · rw [List.mem_singleton.1 he]
            exact hcalm
        · rw [hadd] at hlength
          rw [List.foldl_cons, List.length_append, List.length_singleton, hadd]
          dsimp only at hfewer hlength ⊢
          omega

end Keeper

namespace Bootstrap

open Keeper World

/-- A task has ended just when it has met with the stop of its node or an error that does not pass, and
meets with nothing after that; this holds however long things go on. Until then it pauses whenever it has
no connection, and dials again when the pause is over. If it has paused `j` times since its last dial that
succeeded, or since it began, the pause lasts `2 ^ j` seconds, or 60 if that is less.

All this holds of a task of a mesh, whatever the worlds in which it is moved on. A stop of its node that
comes while it does not look is not lost: it dials no more, meets with two more things at most, and ends
when it looks. -/
theorem backs_off_until_ended (r : EventReceiver) :
    (∀ ms : List Encounter,
      let d := diary r ms
      (d.task.phase = .stopped ↔ ∃ e ∈ d.entries, e.input.Ends) ∧
      (∀ e ∈ d.entries.tail, ¬ e.input.Ends) ∧
      (d.task.delay ≤ 60 ∧ d.task.delay * 2 < UInt64.size) ∧
      ∀ m : Encounter,
        (∀ s, (d.meet m).2 = .pause s ↔
          Setback d.task.phase m.input ∧ s = min (2 ^ pauses d.entries) 60) ∧
        ((d.meet m).2 = .dial ↔ d.task.phase = .pausing ∧ m.input = .paused) ∧
        ((d.meet m).2 = .dial → ∃ i older,
          d.entries = ⟨i, .pause (min (2 ^ pauses older) 60)⟩ :: older)) ∧
    (∀ (met : ℕ → Encounter) (n : ℕ),
      let d (k : ℕ) := diary r ((List.range k).map met)
      (d n).task.phase = .stopped ↔
        ∃ k < n, (d k).task.phase.awaits (met k).input = true ∧ (met k).input.Ends) ∧
    ∀ (n : NodeId) (a : Address) (before : List World),
      let k := resumeIn ⟨n, a, .start r, some (keeperDial n a)⟩ before
      ∃ ms, k.state = (diary r ms).task ∧
        (∀ millis wait next, k.work = some (.blocked (.sleep millis) wait next) →
          ∃ i older, (diary r ms).entries = ⟨i, .pause (min (2 ^ pauses older) 60)⟩ :: older ∧
            millis = min (2 ^ pauses older) 60 * 1000) ∧
        ∀ after : List World, (∀ w ∈ after, w.Told n) →
          let k' := k.resumeIn after
          (∃ ms' new, k'.state = (diary r (ms ++ ms')).task ∧
            (diary r (ms ++ ms')).entries = new ++ (diary r ms).entries ∧
            (∀ e ∈ new, e.action ≠ .dial) ∧ new.length ≤ 2) ∧
          (k'.state.phase.awaits .shutdown = true →
            ∀ w : World, w.Told n → (w.resumeKeeper k').2.1.state.phase = .stopped) := by
  refine ⟨fun ms => ?_, stopped_iff_exists_lt r, fun n a before => ?_⟩
  · intro d
    have h : d.Kept := kept_diary r ms
    have hdoubled : d.task.delay * 2 < UInt64.size := by
      have hbound := h.bound
      unfold UInt64.size
      omega
    refine ⟨h.stopped_iff, h.last, ⟨h.bound, hdoubled⟩, fun m => ?_⟩
    obtain ⟨hpause, hdial⟩ := h.acts m
    refine ⟨hpause, hdial, fun hredials => ?_⟩
    obtain ⟨i, older, hentries, -, hdelay⟩ := h.now (hdial.1 hredials).1
    exact ⟨i, older, hdelay ▸ hentries⟩
  · intro k
    have hnode : k.node = n := node_resumeIn _ before
    have hstart : Follows ⟨n, a, .start r, some (keeperDial n a)⟩ ⟨start r, []⟩ := ⟨rfl, .due .dial⟩
    obtain ⟨ms, hms⟩ := hstart.exists_resumeIn before
    have h : k.Follows (diary r ms) := hms
    refine ⟨ms, h.state, fun millis wait next => h.sleeps (kept_diary r ms), fun after hafter => ?_⟩
    intro k'
    have hnode' : k'.node = n := (node_resumeIn k after).trans hnode
    obtain ⟨ms', new, h', hnew, hidle, hlength⟩ := h.exists_resumeIn_told (hnode.symm ▸ hafter)
    rw [← diary_append] at h' hnew hlength
    have hfew : (diary r ms).task.phase.errands ≤ 2 := errands_le_two _
    exact ⟨⟨ms', new, h'.state, hnew, hidle, by omega⟩,
      fun hawaits w hw => h'.stopped_resume (hnode'.symm ▸ hw) hawaits⟩

/-- Six dials are refused and a seventh is too, or succeeds and the peer goes away, or the node is told to
stop. In a mesh, a node is told to stop while its task dials; the dial is refused, and the task ends. -/
theorem backs_off_until_ended_of_refusals :
    let r : EventReceiver := ⟨0⟩
    let p : PeerId := ⟨[1]⟩
    let refused : Encounter := ⟨.dialed (.error (.dial "/memory/1" "refused")), r, r, nofun⟩
    let rested : Encounter := ⟨.paused, r, r, nofun⟩
    let connected : Encounter := ⟨.dialed (.ok ⟨p, 0, [.memory 1]⟩), r, r, nofun⟩
    let gone : Encounter := ⟨.received (.event (.peerDisconnected p)), r, r, nofun⟩
    let told : Encounter := ⟨.shutdown, r, r, nofun⟩
    let ms := (List.replicate 6 [refused, rested]).flatten
    let node : Node := { (default : Node) with
      running := true
      office := some { (default : Office) with stopping := true } }
    let w : World := { World.start true .empty with nodes := (∅ : Table NodeId Node).insert 0 node }
    let refusing : World := { w with
      answers := (∅ : Table CallerId _).insert 0 (.error (.dial "/memory/1" "refused")) }
    let k := resumeIn ⟨0, [.memory 1], .start r, some (keeperDial 0 [.memory 1])⟩ [w]
    ((diary r ms).meet refused).2 = .pause 60 ∧
      ((diary r (ms ++ [connected])).meet gone).2 = .pause 1 ∧
      (diary r (ms ++ [connected, told, rested])).task.phase = .stopped ∧
      k.state.phase = .dialing ∧ (k.resumeIn [refusing]).state.phase = .pausing ∧
      (w.resumeKeeper (k.resumeIn [refusing])).2.1.state.phase = .stopped := by
  intro r p refused rested connected gone told ms node w refusing k
  have h := (backs_off_until_ended r).1
  obtain ⟨ms', -, -, hended⟩ := (backs_off_until_ended r).2.2 0 [.memory 1] [w]
  have hrefusing : ∀ w' ∈ [refusing], w'.Told 0 :=
    fun w' hw' => List.mem_singleton.1 hw' ▸ ⟨node, rfl, rfl⟩
  refine ⟨?_, ?_, ?_, rfl, rfl, ?_⟩
  · exact (((h ms).2.2.2 refused).1 60).2 ⟨.failed rfl, by decide⟩
  · exact (((h (ms ++ [connected])).2.2.2 gone).1 1).2 ⟨.gone p, by decide⟩
  · exact (h (ms ++ [connected, told, rested])).1.2 ⟨⟨.shutdown, .wait⟩, List.mem_cons_self, Or.inl rfl⟩
  · exact (hended [refusing] hrefusing).2 rfl w ⟨node, rfl, rfl⟩

end Bootstrap

end SealedCustody
