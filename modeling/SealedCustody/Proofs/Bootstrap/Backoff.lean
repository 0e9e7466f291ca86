import Mathlib.Algebra.Group.Nat.Defs
import Mathlib.Data.List.Basic
import SealedCustody.Bootstrap

/-!
# When a task dials again, and when it ends

A task that stays connected to an address goes on until it meets with something that ends it: an error
that does not pass, or the stop of its node. Until then it pauses whenever it has no connection, and
dials again when the pause is over. The pauses last 1, 2, 4, … seconds, 60 at most, and start over after
a dial that succeeded.

`Diary` is a task with all that it has met with so far and did then, whatever that was and however much.
What carries a diary on is that the next pause goes by the number of pauses since the last success
(`Diary.Paced`); while the task pauses it is the pause under way that does, since the next is worked out
only at its end.
-/

namespace SealedCustody

namespace Bootstrap

variable {b : Bootstrap} {i : Input} {fresh : EventReceiver}

/-! ## What a task may meet with -/

/-- Whether a task waits for an input. While it dials or counts it does not look whether its node is told
to stop; it does so when it next watches or pauses. -/
def Phase.awaits : Phase → Input → Bool
  | .dialing, .dialed _ => true
  | .watching _, .received _ | .watching _, .shutdown => true
  | .counting _, .counted _ => true
  | .pausing, .paused | .pausing, .shutdown => true
  | _, _ => false

/-- The error that an input tells of. -/
def Input.fault? : Input → Option Error
  | .dialed (.error e) | .counted (.error e) => some e
  | _ => none

/-- The input is the stop of the node, or an error that does not pass. -/
def Input.Ends (i : Input) : Prop :=
  i = .shutdown ∨ ∃ e, i.fault? = some e ∧ (e = .shutdown ∨ e.isRetryable = false)

/-- The input is a dial that succeeded. -/
def Input.connects : Input → Bool
  | .dialed (.ok _) => true
  | _ => false

/-- The task learns that it has no connection: its dial failed in a way that may pass, or the peer has
gone. -/
inductive Setback : Phase → Input → Prop where
  | failed {e : Error} (passes : e.isRetryable = true) : Setback .dialing (.dialed (.error e))
  | gone (p : PeerId) : Setback (.watching p) (.received (.event (.peerDisconnected p)))
  | missing (p : PeerId) : Setback (.counting p) (.counted (.ok 0))

/-- What a task meets with at some time. -/
structure Encounter where
  input : Input
  /-- The place to which it has come among the events. -/
  receiver : EventReceiver
  /-- The receiver as which it would subscribe now. -/
  fresh : EventReceiver
  /-- The connections to a peer can be counted unless the node has stopped. -/
  genuine : ∀ e, input = .counted (.error e) → e = .shutdown

/-! ## Diaries -/

/-- Something that a task has met with, and what it did then. -/
structure Entry where
  input : Input
  action : Action

/-- A task, and what it has met with, the last first. -/
structure Diary where
  task : Bootstrap
  entries : List Entry

/-- The task meets with something. -/
def Diary.meet (d : Diary) (m : Encounter) : Bootstrap × Action :=
  { d.task with receiver := m.receiver }.step m.fresh m.input

/-- The diary after that. What the task does not wait for is not entered. -/
def Diary.add (d : Diary) (m : Encounter) : Diary :=
  ⟨(d.meet m).1,
    if d.task.phase.awaits m.input then ⟨m.input, (d.meet m).2⟩ :: d.entries else d.entries⟩

/-- The diary of a task from its first dial on. -/
def diary (r : EventReceiver) (ms : List Encounter) : Diary := ms.foldl Diary.add ⟨start r, []⟩

/-- Whether an action is a pause. -/
def Action.isPause : Action → Bool
  | .pause _ => true
  | _ => false

/-- How often a task has paused since its last dial that succeeded, or since it began. -/
def pauses (es : List Entry) : Nat := (es.takeWhile (!·.input.connects)).countP (·.action.isPause)

/-! ## One step -/

theorem ne_stopped_of_awaits {phase : Phase} (h : phase.awaits i = true) : phase ≠ .stopped := by
  rintro rfl
  cases h

theorem eq_pausing_of_awaits {phase : Phase} (h : phase.awaits .paused = true) : phase = .pausing := by
  cases phase with
  | pausing => rfl
  | _ => cases h

theorem Setback.awaits {phase : Phase} (h : Setback phase i) : phase.awaits i = true := by
  cases h with
  | failed passes => rfl
  | gone p => rfl
  | missing p => rfl

theorem Setback.ne_pausing {phase : Phase} (h : Setback phase i) : phase ≠ .pausing := by
  rintro rfl
  cases h

theorem Setback.connects_eq_false {phase : Phase} (h : Setback phase i) : i.connects = false := by
  cases h with
  | failed passes => rfl
  | gone p => rfl
  | missing p => rfl

theorem not_ends (hi : i ≠ .shutdown) (hfault : i.fault? = none) : ¬ i.Ends := by
  rintro (h | ⟨e, he, -⟩)
  · exact hi h
  · cases hfault.symm.trans he

theorem Setback.not_ends {phase : Phase} (h : Setback phase i) : ¬ i.Ends := by
  cases h with
  | failed passes =>
    rintro (hi | ⟨e, he, rfl | hfinal⟩)
    · cases hi
    · cases he
      cases passes
    · cases he
      cases passes.symm.trans hfinal
  | gone p => exact Bootstrap.not_ends nofun rfl
  | missing p => exact Bootstrap.not_ends nofun rfl

/-- What a task does with an input that it waits for. -/
inductive Turn (b : Bootstrap) (fresh : EventReceiver) : Input → Bootstrap × Action → Prop where
  | ended {i : Input} (ends : i.Ends) : Turn b fresh i b.stop
  | setBack {i : Input} (setback : Setback b.phase i) : Turn b fresh i b.pause
  | connected (dialing : b.phase = .dialing) (c : Connection) :
    Turn b fresh (.dialed (.ok c)) ({ b with phase := .watching c.peer, delay := firstPause }, .wait)
  | rested (pausing : b.phase = .pausing) :
    Turn b fresh .paused (⟨.dialing, Nat.min (b.delay * 2) longestPause, fresh⟩, .dial)
  /-- It still takes the peer to be there. -/
  | watching {i : Input} {p : PeerId} (seen : (∃ r, i = .received r) ∨ ∃ n, i = .counted (.ok n))
      (phase : b.phase = .watching p ∨ b.phase = .counting p) (undisturbed : ¬ Setback b.phase i) :
    Turn b fresh i ({ b with phase := .watching p }, .wait)
  /-- It has lost events and sets out to count the connections. -/
  | counting {p : PeerId} (phase : b.phase = .watching p) :
    Turn b fresh (.received .lagged) ({ b with phase := .counting p }, .count p)

theorem turn_received {p : PeerId} (h : b.phase = .watching p) (r : Received) :
    Turn b fresh (.received r) (b.step fresh (.received r)) := by
  obtain ⟨phase, delay, receiver⟩ := b
  cases h
  have hcalm : r ≠ .event (.peerDisconnected p) → ¬ Setback (.watching p) (.received r) := by
    rintro hr ⟨⟩
    exact hr rfl
  cases r with
  | event e =>
    by_cases he : e = .peerDisconnected p
    · subst he
      unfold step
      dsimp only
      rw [if_pos rfl]
      exact .setBack (.gone p)
    · have hsame : step fresh ⟨.watching p, delay, receiver⟩ (.received (.event e)) =
          (⟨.watching p, delay, receiver⟩, .wait) := by
        cases e with
        | peerDisconnected q => exact if_neg fun hq => he (congrArg _ hq)
        | _ => rfl
      rw [hsame]
      exact .watching (Or.inl ⟨_, rfl⟩) (Or.inl rfl) (hcalm fun hr => he (Received.event.inj hr))
  | lagged => exact .counting rfl
  | nothing => exact .watching (Or.inl ⟨_, rfl⟩) (Or.inl rfl) (hcalm nofun)

theorem turn_counted {p : PeerId} (h : b.phase = .counting p) (n : Nat) :
    Turn b fresh (.counted (.ok n)) (b.step fresh (.counted (.ok n))) := by
  obtain ⟨phase, delay, receiver⟩ := b
  cases h
  cases n with
  | zero => exact .setBack (.missing p)
  | succ n => exact .watching (Or.inr ⟨_, rfl⟩) (Or.inr rfl) nofun

theorem turn_step (h : b.phase.awaits i = true)
    (hgenuine : ∀ e, i = .counted (.error e) → e = .shutdown) : Turn b fresh i (b.step fresh i) := by
  obtain ⟨phase, delay, receiver⟩ := b
  cases phase with
  | dialing =>
    cases i with
    | dialed r =>
      cases r with
      | ok c => exact .connected rfl c
      | error e =>
        unfold step
        dsimp only
        split
        · rename_i hfinal
          exact .ended (Or.inr ⟨e, rfl, hfinal⟩)
        · rename_i hpasses
          rw [not_or, Bool.not_eq_false] at hpasses
          exact .setBack (.failed hpasses.2)
    | _ => cases h
  | watching p =>
    cases i with
    | received r => exact turn_received rfl r
    | shutdown => exact .ended (Or.inl rfl)
    | _ => cases h
  | counting p =>
    cases i with
    | counted r =>
      cases r with
      | ok n => exact turn_counted rfl n
      | error e => exact .ended (Or.inr ⟨e, rfl, Or.inl (hgenuine e rfl)⟩)
    | _ => cases h
  | pausing =>
    cases i with
    | paused => exact .rested rfl
    | shutdown => exact .ended (Or.inl rfl)
    | _ => cases h
  | stopped => cases h

/-- An input that a task does not wait for changes nothing. -/
theorem step_of_not_awaits (h : b.phase.awaits i = false) : b.step fresh i = (b, .wait) := by
  obtain ⟨phase, delay, receiver⟩ := b
  cases phase with
  | dialing =>
    cases i with
    | dialed r => cases h
    | _ => rfl
  | watching p =>
    cases i with
    | received r => cases h
    | shutdown => cases h
    | _ => rfl
  | counting p =>
    cases i with
    | counted r => cases h
    | _ => rfl
  | pausing =>
    cases i with
    | paused => cases h
    | shutdown => cases h
    | _ => rfl
  | stopped => rfl

variable {t : Bootstrap × Action}

theorem Turn.stopped_iff (h : Turn b fresh i t) : t.1.phase = .stopped ↔ i.Ends := by
  cases h with
  | ended ends => exact iff_of_true rfl ends
  | setBack setback => exact iff_of_false nofun setback.not_ends
  | connected dialing c => exact iff_of_false nofun (not_ends nofun rfl)
  | rested pausing => exact iff_of_false nofun (not_ends nofun rfl)
  | watching seen phase undisturbed =>
    rcases seen with ⟨r, rfl⟩ | ⟨n, rfl⟩
    · exact iff_of_false nofun (not_ends nofun rfl)
    · exact iff_of_false nofun (not_ends nofun rfl)
  | counting phase => exact iff_of_false nofun (not_ends nofun rfl)

theorem Turn.pause_iff (h : Turn b fresh i t) (s : Nat) :
    t.2 = .pause s ↔ Setback b.phase i ∧ s = b.delay := by
  obtain ⟨phase, delay, receiver⟩ := b
  cases h with
  | ended ends => exact iff_of_false nofun fun hs => hs.1.not_ends ends
  | setBack setback =>
    exact ⟨fun hs => ⟨setback, (Action.pause.inj hs).symm⟩, fun hs => congrArg _ hs.2.symm⟩
  | connected dialing c => exact iff_of_false nofun nofun
  | rested pausing => exact iff_of_false nofun nofun
  | watching seen before undisturbed => exact iff_of_false nofun fun hs => undisturbed hs.1
  | counting before => exact iff_of_false nofun nofun

theorem Turn.dial_iff (h : Turn b fresh i t) : t.2 = .dial ↔ i = .paused := by
  obtain ⟨phase, delay, receiver⟩ := b
  cases h with
  | ended ends =>
    refine iff_of_false nofun ?_
    rintro rfl
    exact not_ends (i := .paused) nofun rfl ends
  | setBack setback =>
    refine iff_of_false nofun ?_
    rintro rfl
    cases setback
  | connected dialing c => exact iff_of_false nofun nofun
  | rested pausing => exact iff_of_true rfl rfl
  | watching seen before undisturbed =>
    rcases seen with ⟨r, rfl⟩ | ⟨n, rfl⟩
    · exact iff_of_false nofun nofun
    · exact iff_of_false nofun nofun
  | counting before => exact iff_of_false nofun nofun

/-! ## What a diary keeps to -/

theorem pauses_cons (e : Entry) (es : List Entry) : pauses (e :: es) =
    if e.input.connects then 0 else pauses es + if e.action.isPause then 1 else 0 := by
  unfold pauses
  rw [List.takeWhile_cons]
  cases e.input.connects with
  | true => rfl
  | false => exact List.countP_cons

/-- A task has ended just when it has met with something that ends it, and that was the last. -/
structure Diary.Closed (d : Diary) : Prop where
  stopped_iff : d.task.phase = .stopped ↔ ∃ e ∈ d.entries, e.input.Ends
  last : ∀ e ∈ d.entries.tail, ¬ e.input.Ends

/-- The next pause goes by the number of pauses since the last success. One that is under way goes by the
number of those before it. -/
structure Diary.Paced (d : Diary) : Prop where
  bound : d.task.delay ≤ 60
  next : d.task.phase ≠ .pausing → d.task.phase ≠ .stopped → d.task.delay = min (2 ^ pauses d.entries) 60
  now : d.task.phase = .pausing → ∃ i older, d.entries = ⟨i, .pause d.task.delay⟩ :: older ∧
    i.connects = false ∧ d.task.delay = min (2 ^ pauses older) 60

/-- What holds of every diary. -/
structure Diary.Kept (d : Diary) : Prop extends d.Closed, d.Paced

theorem min_two_pow_succ (j : Nat) : Nat.min (min (2 ^ j) 60 * 2) longestPause = min (2 ^ (j + 1)) 60 := by
  change min (min (2 ^ j) 60 * 2) 60 = _
  rw [Nat.pow_succ]
  omega

theorem Turn.paced (h : Turn b fresh i t) {es : List Entry} (hb : Diary.Paced ⟨b, es⟩) :
    Diary.Paced ⟨t.1, ⟨i, t.2⟩ :: es⟩ := by
  obtain ⟨phase, delay, receiver⟩ := b
  cases h with
  | ended ends => exact ⟨hb.bound, fun _ hstopped => absurd rfl hstopped, nofun⟩
  | setBack setback =>
    have hdelay := hb.next setback.ne_pausing (ne_stopped_of_awaits setback.awaits)
    exact ⟨hb.bound, fun hpausing => absurd rfl hpausing,
      fun _ => ⟨i, es, rfl, setback.connects_eq_false, hdelay⟩⟩
  | connected dialing c =>
    refine ⟨Nat.le_of_ble_eq_true rfl, fun _ _ => ?_, nofun⟩
    rw [pauses_cons]
    rfl
  | rested pausing =>
    obtain ⟨i, older, hes, hconnects, hdelay⟩ := hb.now pausing
    dsimp only at hes hdelay
    have hnext : Nat.min (delay * 2) longestPause = min (2 ^ (pauses older + 1)) 60 := by
      rw [hdelay, min_two_pow_succ]
    refine ⟨Nat.min_le_right .., fun _ _ => ?_, nofun⟩
    rw [pauses_cons, hes, pauses_cons, hconnects]
    exact hnext
  | watching seen before undisturbed =>
    refine ⟨hb.bound, fun _ _ => ?_, nofun⟩
    have hsame : pauses (⟨i, .wait⟩ :: es) = pauses es := by
      rcases seen with ⟨r, rfl⟩ | ⟨n, rfl⟩
      · exact pauses_cons ..
      · exact pauses_cons ..
    rw [hsame]
    rcases before with hphase | hphase
    · cases hphase
      exact hb.next nofun nofun
    · cases hphase
      exact hb.next nofun nofun
  | counting before =>
    cases before
    refine ⟨hb.bound, fun _ _ => ?_, nofun⟩
    rw [pauses_cons]
    exact hb.next nofun nofun

variable {d : Diary}

/-- What a task waits for is entered. Anything else changes no more than its place among the events. -/
theorem Diary.add_cases (d : Diary) (m : Encounter) :
    (d.task.phase.awaits m.input = false ∧ (d.meet m).2 = .wait ∧
      d.add m = ⟨{ d.task with receiver := m.receiver }, d.entries⟩) ∨
    (d.task.phase.awaits m.input = true ∧
      Turn { d.task with receiver := m.receiver } m.fresh m.input (d.meet m) ∧
      d.add m = ⟨(d.meet m).1, ⟨m.input, (d.meet m).2⟩ :: d.entries⟩) := by
  cases hawaits : d.task.phase.awaits m.input with
  | false =>
    have hmeet : d.meet m = ({ d.task with receiver := m.receiver }, .wait) :=
      step_of_not_awaits hawaits
    refine Or.inl ⟨rfl, congrArg _ hmeet, ?_⟩
    unfold Diary.add
    rw [hawaits, hmeet]
    rfl
  | true =>
    refine Or.inr ⟨rfl, turn_step hawaits m.genuine, ?_⟩
    unfold Diary.add
    rw [hawaits]
    rfl

/-- A task ends with the first thing that ends it. -/
theorem Diary.stopped_add_iff (d : Diary) (m : Encounter) : (d.add m).task.phase = .stopped ↔
    d.task.phase = .stopped ∨ d.task.phase.awaits m.input = true ∧ m.input.Ends := by
  rcases d.add_cases m with ⟨hawaits, -, hadd⟩ | ⟨hawaits, hturn, hadd⟩
  · rw [hadd, hawaits]
    simp
  · rw [hadd, hawaits]
    simp [ne_stopped_of_awaits hawaits, hturn.stopped_iff]

theorem Diary.Closed.add (h : d.Closed) (m : Encounter) : (d.add m).Closed := by
  rcases d.add_cases m with ⟨-, -, hadd⟩ | ⟨hawaits, hturn, hadd⟩
  · rw [hadd]
    exact ⟨h.stopped_iff, h.last⟩
  · have hnone : ∀ e ∈ d.entries, ¬ e.input.Ends := fun e he hends =>
      ne_stopped_of_awaits hawaits (h.stopped_iff.2 ⟨e, he, hends⟩)
    rw [hadd]
    refine ⟨?_, hnone⟩
    rw [hturn.stopped_iff, List.exists_mem_cons_iff]
    exact ⟨Or.inl, fun hends => hends.resolve_right fun ⟨e, he, hends⟩ => hnone e he hends⟩

theorem Diary.Paced.add (h : d.Paced) (m : Encounter) : (d.add m).Paced := by
  have hmoved : Diary.Paced ⟨{ d.task with receiver := m.receiver }, d.entries⟩ :=
    ⟨h.bound, h.next, h.now⟩
  rcases d.add_cases m with ⟨-, -, hadd⟩ | ⟨-, hturn, hadd⟩
  · rw [hadd]
    exact hmoved
  · rw [hadd]
    exact hturn.paced hmoved

theorem Diary.Kept.add (h : d.Kept) (m : Encounter) : (d.add m).Kept :=
  ⟨h.toClosed.add m, h.toPaced.add m⟩

theorem Diary.Kept.addAll (h : d.Kept) (ms : List Encounter) : (ms.foldl Diary.add d).Kept := by
  induction ms generalizing d with
  | nil => exact h
  | cons m ms ih => exact ih (h.add m)

theorem kept_start (r : EventReceiver) : Diary.Kept ⟨start r, []⟩ where
  stopped_iff := by simp [start]
  last := by simp
  bound := by simp [start, firstPause]
  next _ _ := rfl
  now h := nomatch h

theorem kept_diary (r : EventReceiver) (ms : List Encounter) : (diary r ms).Kept :=
  (kept_start r).addAll ms

/-! ## Whole lives -/

/-- What a task does with the next thing it meets with. -/
theorem Diary.Kept.acts (h : d.Kept) (m : Encounter) :
    (∀ s, (d.meet m).2 = .pause s ↔
      Setback d.task.phase m.input ∧ s = min (2 ^ pauses d.entries) 60) ∧
    ((d.meet m).2 = .dial ↔ d.task.phase = .pausing ∧ m.input = .paused) := by
  rcases d.add_cases m with ⟨hawaits, hwaits, -⟩ | ⟨hawaits, hturn, -⟩
  · rw [hwaits]
    refine ⟨fun s => iff_of_false nofun fun hs => ?_, iff_of_false nofun fun hp => ?_⟩
    · cases hawaits.symm.trans hs.1.awaits
    · rw [hp.1, hp.2] at hawaits
      cases hawaits
  · refine ⟨fun s => ?_, ?_⟩
    · rw [hturn.pause_iff]
      refine and_congr_right fun hsetback => ?_
      rw [h.next hsetback.ne_pausing (ne_stopped_of_awaits hawaits)]
    · rw [hturn.dial_iff]
      refine ⟨fun hpaused => ⟨?_, hpaused⟩, And.right⟩
      rw [hpaused] at hawaits
      exact eq_pausing_of_awaits hawaits

theorem diary_append (r : EventReceiver) (ms ms' : List Encounter) :
    diary r (ms ++ ms') = ms'.foldl Diary.add (diary r ms) := List.foldl_append

/-- However long things go on, a task has ended just when it has met with something that ends it. -/
theorem stopped_iff_exists_lt (r : EventReceiver) (met : ℕ → Encounter) (n : ℕ) :
    (diary r ((List.range n).map met)).task.phase = .stopped ↔
      ∃ k < n, (diary r ((List.range k).map met)).task.phase.awaits (met k).input = true ∧
        (met k).input.Ends := by
  induction n with
  | zero => exact iff_of_false nofun nofun
  | succ n ih =>
    rw [List.range_succ, List.map_append, List.map_singleton, diary_append, List.foldl_cons,
      List.foldl_nil, Diary.stopped_add_iff, ih]
    simp only [Nat.exists_lt_succ_right]

end Bootstrap

end SealedCustody
