import SealedCustody.Proofs.Connection.Callers
import SealedCustody.Proofs.Connection.News
import SealedCustody.Proofs.Event.Reception
import SealedCustody.Proofs.Mesh.Keepers

/-!
# No disconnect is missed

A task that stays connected to an address shares nothing with the node but messages: the answer to its
dial, the events, and the number of connections that it asks for when events were lost. Each of them may
be out of date when the task takes it. `Vigil` is the node and the task with the messages between them;
either may move at any time, and other callers and other events come in between.

What carries a run is that whatever the task goes by still holds or is going to be contradicted
(`Alert.heeds`): if it was told that a peer is connected then the peer is listed, or the task is still to
hear that it no longer is, or that events were lost. The latter holds from the first dial on, since the
task subscribes before it dials, and again after events were lost, since it is only then that the
connections are counted.
-/

namespace SealedCustody

/-! ## Steps of the task -/

namespace Bootstrap

variable {b : Bootstrap} {p : PeerId} (fresh : EventReceiver)

theorem step_connected (h : b.phase = .dialing) (c : Connection) :
    (b.step fresh (.dialed (.ok c))).1 =
      { b with phase := .watching c.peer, delay := firstPause } := by
  cases b
  cases h
  rfl

/-- A dial that has failed is followed by a pause, or by the end. -/
theorem step_dialFailed (h : b.phase = .dialing) (e : Error) :
    (b.step fresh (.dialed (.error e))).1.receiver = b.receiver ∧
      ((b.step fresh (.dialed (.error e))).1.phase = .pausing ∨
        (b.step fresh (.dialed (.error e))).1.phase = .stopped) := by
  cases b
  cases h
  dsimp only [step]
  split
  · exact ⟨rfl, Or.inr rfl⟩
  · exact ⟨rfl, Or.inl rfl⟩

/-- A task that watches a peer pauses when the peer has gone, and counts when events were lost. -/
theorem step_received (h : b.phase = .watching p) (r : Received) :
    (b.step fresh (.received r)).1 = { b with
      phase := match r with
        | .event e => if e = .peerDisconnected p then .pausing else .watching p
        | .lagged => .counting p
        | .nothing => .watching p } := by
  cases b
  cases h
  cases r with
  | event e =>
    cases e with
    | peerDisconnected q =>
      by_cases hq : q = p
      · dsimp only [step]
        rw [if_pos hq, if_pos (congrArg _ hq)]
        rfl
      · dsimp only [step]
        rw [if_neg hq, if_neg fun h => hq (Event.peerDisconnected.inj h)]
    | _ => rfl
  | lagged => rfl
  | nothing => rfl

/-- A task that has counted no connections pauses, and otherwise watches on. -/
theorem step_counted (h : b.phase = .counting p) (n : Nat) :
    (b.step fresh (.counted (.ok n))).1 =
      { b with phase := if n = 0 then .pausing else .watching p } := by
  cases b
  cases h
  cases n with
  | zero => rfl
  | succ n => rfl

theorem step_paused (h : b.phase = .pausing) :
    (b.step fresh .paused).1 = ⟨.dialing, Nat.min (b.delay * 2) longestPause, fresh⟩ := by
  cases b
  cases h
  rfl

end Bootstrap

/-! ## A node and its task -/

/-- The event that an effect sends. -/
def Connections.Effect.event? : Connections.Effect → Option Event
  | .emit e => some e
  | _ => none

/-- The answer that an effect gives to a caller. -/
def Connections.Effect.reply? (w : CallerId) : Connections.Effect → Option (Except Error Connection)
  | .answer caller r => if caller = w then some r else none
  | _ => none

/-- A node and a task that stays connected to an address, with the messages on their way to the task. -/
structure Vigil where
  tables : Connections
  channel : EventChannel
  task : Bootstrap
  /-- The name of the task as a caller; it has another for each dial. -/
  caller : CallerId
  /-- The outcome of the dial, if it is there and the task has not taken it. -/
  outcome : Option (Except Error Connection)
  /-- The number of connections to the peer, if it is there and the task has not taken it. -/
  number : Option Nat

namespace Vigil

/-- What goes on at a node with such a task. -/
inductive Move where
  /-- The tables meet with something, which may be the dial of the task or that of another. -/
  | met (i : Connections.Input)
  /-- The node tells of something else. -/
  | told (e : Event)
  /-- The task takes the outcome of its dial. -/
  | heard
  /-- The task waits for its dial no longer. -/
  | gaveUp (e : Error)
  /-- The task looks for an event. -/
  | looked
  /-- The node counts connections for the task. -/
  | answered
  /-- The task takes their number. -/
  | counted
  /-- The pause of the task is over: it subscribes anew and dials under a new name. -/
  | rested (caller : CallerId)

/-- The task meets with something. -/
def advance (v : Vigil) (i : Bootstrap.Input) : Bootstrap := (v.task.step v.channel.subscribe i).1

/-- Takes a move. The task takes only what it waits for in its phase. -/
def step (v : Vigil) : Move → Vigil
  | .met i =>
    let (tables, effects) := v.tables.step i
    { v with
      tables
      channel := v.channel.sendAll (effects.filterMap Connections.Effect.event?)
      outcome := v.outcome.or (effects.findSome? (Connections.Effect.reply? v.caller)) }
  | .told e => { v with channel := v.channel.send e }
  | .heard =>
    match v.task.phase, v.outcome with
    | .dialing, some r => { v with task := v.advance (.dialed r), outcome := none }
    | _, _ => v
  | .gaveUp e =>
    match v.task.phase with
    | .dialing => { v with task := v.advance (.dialed (.error e)) }
    | _ => v
  | .looked =>
    match v.task.phase with
    | .watching _ =>
      let (r, receiver) := v.channel.receive v.task.receiver
      let v := { v with task := { v.task with receiver } }
      { v with task := v.advance (.received r), number := none }
    | _ => v
  | .answered =>
    match v.task.phase with
    | .counting p => { v with number := v.number.or (some (v.tables.count p)) }
    | _ => v
  | .counted =>
    match v.task.phase, v.number with
    | .counting _, some k => { v with task := v.advance (.counted (.ok k)), number := none }
    | _, _ => v
  | .rested caller =>
    match v.task.phase with
    | .pausing => { v with task := v.advance .paused, caller, outcome := none }
    | _ => v

/-- Takes moves in order. -/
def run (v : Vigil) (ms : List Move) : Vigil := ms.foldl step v

/-- A task that dials for the first time. -/
def start (tables : Connections) (channel : EventChannel) (caller : CallerId) : Vigil :=
  ⟨tables, channel, .start channel.subscribe, caller, none, none⟩

variable {v : Vigil} {p q : PeerId}

/-! ## What the task goes by -/

/-- The task was told that a peer is connected, and has not heard otherwise. -/
inductive Believes (v : Vigil) (p : PeerId) : Prop where
  | dialed {c : Connection} (phase : v.task.phase = .dialing) (told : v.outcome = some (.ok c))
      (peer : c.peer = p)
  | watching (phase : v.task.phase = .watching p)
  | counted {k : Nat} (phase : v.task.phase = .counting p) (told : v.number = some (k + 1))

/-- A peer is listed, or the task is going to hear that it is not. -/
def Heeds (v : Vigil) (p : PeerId) : Prop :=
  v.tables.live.contains p = true ∨ v.channel.Owes v.task.receiver (.peerDisconnected p)

/-- The task misses nothing. -/
structure Alert (v : Vigil) : Prop where
  occupied : v.tables.Occupied
  sound : v.channel.Sound
  behind : v.task.receiver.next ≤ v.channel.sent
  /-- While connections are counted there are events to look at, the ones that were not lost. -/
  unheard : ∀ p, v.task.phase = .counting p → v.task.receiver.next < v.channel.sent
  heeds : ∀ p, v.Believes p → v.Heeds p

theorem Believes.of_dialing (h : v.Believes p) (hphase : v.task.phase = .dialing) :
    ∃ c, v.outcome = some (.ok c) ∧ c.peer = p := by
  cases h with
  | dialed _ htold hpeer => exact ⟨_, htold, hpeer⟩
  | watching hphase' => cases hphase.symm.trans hphase'
  | counted hphase' => cases hphase.symm.trans hphase'

theorem Believes.of_watching (h : v.Believes p) (hphase : v.task.phase = .watching q) : p = q := by
  cases h with
  | dialed hphase' => cases hphase.symm.trans hphase'
  | watching hphase' => cases hphase.symm.trans hphase'; rfl
  | counted hphase' => cases hphase.symm.trans hphase'

theorem Believes.of_counting (h : v.Believes p) (hphase : v.task.phase = .counting q) :
    p = q ∧ ∃ k, v.number = some (k + 1) := by
  cases h with
  | dialed hphase' => cases hphase.symm.trans hphase'
  | watching hphase' => cases hphase.symm.trans hphase'
  | counted hphase' htold => cases hphase.symm.trans hphase'; exact ⟨rfl, _, htold⟩

/-- A task that pauses or has ended goes by nothing. -/
theorem not_believes_of_idle (h : v.task.phase = .pausing ∨ v.task.phase = .stopped) : ¬ v.Believes p := by
  rintro (⟨hphase, -, -⟩ | hphase | ⟨hphase, -⟩)
  · simp [hphase] at h
  · simp [hphase] at h
  · simp [hphase] at h

/-- If a task comes to pause or to end, there is nothing more that it could miss. -/
theorem Alert.of_idle {v' : Vigil} (h : v.Alert) (htables : v'.tables = v.tables)
    (hchannel : v'.channel = v.channel) (hbehind : v'.task.receiver.next ≤ v.channel.sent)
    (hidle : v'.task.phase = .pausing ∨ v'.task.phase = .stopped) : v'.Alert where
  occupied := htables ▸ h.occupied
  sound := hchannel ▸ h.sound
  behind := hchannel ▸ hbehind
  unheard q hphase := by simp [hphase] at hidle
  heeds q hq := absurd hq (not_believes_of_idle hidle)

/-! ## The node moves -/

/-- If a peer is not listed after a step but was before, the step sends that it is disconnected. -/
theorem mem_event_of_gone {c : Connections} (h : c.Occupied) {i : Connections.Input}
    (hbefore : c.live.contains p = true) (hafter : (c.step i).1.live.contains p = false) :
    .peerDisconnected p ∈ (c.step i).2.filterMap Connections.Effect.event? := by
  have hturns := h.byTurns_step p i
  rw [hbefore, hafter] at hturns
  obtain ⟨rest, hnews⟩ : ∃ rest, Connections.news p (c.step i).2 = .peerDisconnected p :: rest := by
    generalize Connections.news p (c.step i).2 = es at hturns
    cases hturns with
    | disconnected rest => exact ⟨_, rfl⟩
  have hmem : .peerDisconnected p ∈ Connections.news p (c.step i).2 := hnews ▸ List.mem_cons_self
  obtain ⟨effect, heffect, htold⟩ := List.mem_filterMap.1 hmem
  refine List.mem_filterMap.2 ⟨effect, heffect, ?_⟩
  cases effect with
  | emit e =>
    change (if _ then some e else none) = _ at htold
    split at htold
    · exact htold
    · cases htold
  | _ => cases htold

/-- A connection that the task is told of is listed at that time. -/
theorem listed_of_reply {c : Connections} (h : c.Occupied) {i : Connections.Input} {w : CallerId}
    {conn : Connection}
    (hreply : (c.step i).2.findSome? (Connections.Effect.reply? w) = some (.ok conn)) :
    (c.step i).1.live.contains conn.peer = true := by
  obtain ⟨effect, heffect, htold⟩ := List.exists_of_findSome?_eq_some hreply
  have hanswer : .answer w (.ok conn) ∈ (c.step i).2 := by
    cases effect with
    | answer caller r =>
      change (if caller = w then some r else none) = _ at htold
      split at htold
      · rename_i hcaller
        rw [← hcaller, ← Option.some.inj htold]
        exact heffect
      · cases htold
    | _ => cases htold
  have hfirst : (c.step i).1.primary? conn.peer = some conn := by
    rcases Connections.answer_cases hanswer with ⟨_, -, hsuits⟩ | ⟨_, _, -, -, hsuits, -⟩
    · exact (hsuits conn rfl).1
    · exact (hsuits conn rfl).1
  rw [(h.step i).contains_iff]
  intro hnil
  unfold Connections.primary? at hfirst
  rw [hnil] at hfirst
  cases hfirst

theorem Alert.heeds_met (h : v.Alert) (i : Connections.Input) (hp : v.Heeds p) :
    (v.step (.met i)).Heeds p := by
  by_cases hafter : (v.tables.step i).1.live.contains p = true
  · exact Or.inl hafter
  rcases hp with hbefore | howes
  · have hsent := mem_event_of_gone h.occupied hbefore (Bool.not_eq_true _ ▸ hafter)
    exact Or.inr (h.sound.owes_sendAll h.behind hsent)
  · exact Or.inr (howes.sendAll h.sound h.behind _)

theorem Alert.met (h : v.Alert) (i : Connections.Input) : (v.step (.met i)).Alert where
  occupied := h.occupied.step i
  sound := h.sound.sendAll _
  behind := h.behind.trans (EventChannel.sent_le_sendAll ..)
  unheard q hphase := (h.unheard q hphase).trans_le (EventChannel.sent_le_sendAll ..)
  heeds q hq := by
    cases hq with
    | dialed hphase htold hpeer =>
      rcases Option.or_eq_some_iff.1 htold with hold | ⟨-, hnow⟩
      · exact h.heeds_met i (h.heeds q (.dialed hphase hold hpeer))
      · exact Or.inl (hpeer ▸ listed_of_reply h.occupied hnow)
    | watching hphase => exact h.heeds_met i (h.heeds q (.watching hphase))
    | counted hphase htold => exact h.heeds_met i (h.heeds q (.counted hphase htold))

theorem Alert.told (h : v.Alert) (e : Event) : (v.step (.told e)).Alert where
  occupied := h.occupied
  sound := h.sound.send e
  behind := Nat.le_succ_of_le h.behind
  unheard q hphase := Nat.lt_succ_of_lt (h.unheard q hphase)
  heeds q hq := by
    have hbelieves : v.Believes q := by
      cases hq with
      | dialed hphase htold hpeer => exact .dialed hphase htold hpeer
      | watching hphase => exact .watching hphase
      | counted hphase htold => exact .counted hphase htold
    exact (h.heeds q hbelieves).imp_right fun howes => howes.send h.sound h.behind e

theorem Alert.answered (h : v.Alert) : (v.step .answered).Alert := by
  unfold step
  dsimp only
  split
  · rename_i p hphase
    refine ⟨h.occupied, h.sound, h.behind, h.unheard, fun q hq => ?_⟩
    obtain ⟨rfl, k, htold⟩ := hq.of_counting hphase
    rcases Option.or_eq_some_iff.1 htold with hold | ⟨-, hnow⟩
    · exact h.heeds q (.counted hphase hold)
    · refine Or.inl (h.occupied.contains_iff.2 fun hnil => ?_)
      unfold Connections.count at hnow
      rw [hnil] at hnow
      cases hnow
  · exact h

/-! ## The task moves -/

theorem Alert.gaveUp (h : v.Alert) (e : Error) : (v.step (.gaveUp e)).Alert := by
  unfold step advance
  dsimp only
  split
  · rename_i hphase
    obtain ⟨hreceiver, hidle⟩ := Bootstrap.step_dialFailed v.channel.subscribe hphase e
    exact h.of_idle rfl rfl (hreceiver.symm ▸ h.behind) hidle
  · exact h

/-- A task that comes to watch a peer misses nothing if it went by it before that the peer is
connected. -/
theorem Alert.watch (h : v.Alert) (hp : v.Believes p) {delay : Nat}
    {outcome : Option (Except Error Connection)} {number : Option Nat} :
    Alert { v with task := { v.task with phase := .watching p, delay }, outcome, number } where
  occupied := h.occupied
  sound := h.sound
  behind := h.behind
  unheard q hphase := nomatch hphase
  heeds q hq := by
    obtain rfl := hq.of_watching rfl
    exact h.heeds q hp

theorem Alert.heard (h : v.Alert) : (v.step .heard).Alert := by
  unfold step advance
  dsimp only
  split
  · rename_i r hphase houtcome
    cases r with
    | ok c =>
      rw [Bootstrap.step_connected _ hphase]
      exact h.watch (.dialed hphase houtcome rfl)
    | error e =>
      obtain ⟨hreceiver, hidle⟩ := Bootstrap.step_dialFailed v.channel.subscribe hphase e
      exact h.of_idle rfl rfl (hreceiver.symm ▸ h.behind) hidle
  · exact h

theorem Alert.counted (h : v.Alert) : (v.step .counted).Alert := by
  unfold step advance
  dsimp only
  split
  · rename_i p k hphase hnumber
    rw [Bootstrap.step_counted _ hphase]
    cases k with
    | zero => exact h.of_idle rfl rfl h.behind (Or.inl rfl)
    | succ k => exact h.watch (.counted hphase hnumber)
  · exact h

theorem Alert.rested (h : v.Alert) (caller : CallerId) : (v.step (.rested caller)).Alert := by
  unfold step advance
  dsimp only
  split
  · rename_i hphase
    rw [Bootstrap.step_paused _ hphase]
    refine ⟨h.occupied, h.sound, Nat.le_refl _, nofun, fun q hq => ?_⟩
    obtain ⟨c, htold, -⟩ := hq.of_dialing rfl
    cases htold
  · exact h

theorem Alert.looked (h : v.Alert) : (v.step .looked).Alert := by
  unfold step advance
  dsimp only
  split
  · rename_i p hphase
    have hp : v.Heeds p := h.heeds p (.watching hphase)
    have hsame : ∀ receiver, ({ v.task with receiver } : Bootstrap).phase = .watching p :=
      fun _ => hphase
    rw [Bootstrap.step_received _ (hsame _)]
    rcases h.sound.receive_cases v.task.receiver with
      ⟨hfound, hlost, hkept⟩ | ⟨e, hfound, holdest, hnext, hunread⟩ | ⟨hfound, -⟩
    · -- events were lost: the task goes by nothing until it has the number
      rw [hfound]
      refine ⟨h.occupied, h.sound, Nat.le_of_lt hkept, fun _ _ => hkept, fun q hq => ?_⟩
      obtain ⟨-, k, htold⟩ := hq.of_counting rfl
      cases htold
    · rw [hfound]
      dsimp only
      split
      · exact h.of_idle rfl rfl hnext (Or.inl rfl)
      · -- what is owed to the task is another event
        rename_i he
        refine ⟨h.occupied, h.sound, hnext, nofun, fun q hq => ?_⟩
        obtain rfl := hq.of_watching rfl
        exact hp.imp_right fun howes => howes.received holdest hunread (Ne.symm he)
    · rw [hfound]
      refine ⟨h.occupied, h.sound, h.behind, nofun, fun q hq => ?_⟩
      obtain rfl := hq.of_watching rfl
      exact hp
  · exact h

/-! ## The tasks of a mesh -/

/-- A task of a mesh that is moved on while its node runs stays as it is, or takes what it waited for, or
looks for an event. -/
theorem state_resumeKeeper {w : World} {k : Keeper} {node : Node} (hnode : w.nodes.get? k.node = some node)
    (hruns : node.office.any (·.stopping) = false) (htask : v.task = k.state)
    (hchannel : v.channel = node.events) :
    (w.resumeKeeper k).2.1.state = v.task ∨
      (∃ t i, k.work = some t ∧ (w.resume t).2.1 = .finished i ∧
        (w.resumeKeeper k).2.1.state = v.advance i) ∨
      (∃ p, v.task.phase = .watching p ∧ (w.resumeKeeper k).2.1.state = (v.step .looked).task) := by
  have hresumption : World.Resumption w k (w.resumeKeeper k).2.1 := w.resumption k
  generalize (w.resumeKeeper k).2.1 = k' at hresumption ⊢
  cases hresumption with
  | told present stopping looks =>
    cases hnode.symm.trans present
    cases hruns.symm.trans stopping
  | @finished node' t i present unaware work done =>
    cases hnode.symm.trans present
    refine Or.inr (Or.inl ⟨t, i, work, done, ?_⟩)
    unfold World.Keeper.meet advance
    rw [htask, hchannel]
  | unfinished unaware work undone => exact Or.inl htask.symm
  | @received node' p r receiver present unaware watching found =>
    cases hnode.symm.trans present
    refine Or.inr (Or.inr ⟨p, htask ▸ watching, ?_⟩)
    unfold World.Keeper.meet step advance
    dsimp only
    rw [htask, watching, hchannel]
    dsimp only
    rw [found]
  | unmoved unaware => exact Or.inl htask.symm

/-- The task of a mesh counts among the connections that are handed out, and finds none to a peer just
when there are none. -/
theorem length_primaries_eq_zero_iff (c : Connections) (p : PeerId) :
    (c.primaries.filter (·.peer = p)).length = 0 ↔ c.count p = 0 := by
  unfold Connections.count
  rw [List.length_eq_zero_iff, List.length_eq_zero_iff, List.filter_eq_nil_iff]
  constructor
  · intro h
    refine Connections.toPeer_eq_nil_of_primary?_eq_none ?_
    cases hfirst : c.primary? p with
    | none => rfl
    | some conn =>
      have hlisted : p ∈ c.live.keys := by
        rw [Table.mem_keys]
        unfold Connections.primary? Connections.toPeer at hfirst
        cases hget : c.live.get? p with
        | none =>
          rw [hget] at hfirst
          cases hfirst
        | some ls => rfl
      refine absurd ?_ (h conn (List.mem_filterMap.2 ⟨p, hlisted, hfirst⟩))
      exact decide_eq_true (Connections.peer_of_primary? hfirst)
  · intro hnil conn hconn hpeer
    obtain ⟨q, -, hfirst⟩ := List.mem_filterMap.1 hconn
    obtain rfl : q = p := (Connections.peer_of_primary? hfirst).symm.trans (of_decide_eq_true hpeer)
    unfold Connections.primary? at hfirst
    rw [hnil] at hfirst
    cases hfirst

/-! ## Runs -/

theorem Alert.step (h : v.Alert) (m : Move) : (v.step m).Alert := by
  cases m with
  | met i => exact h.met i
  | told e => exact h.told e
  | heard => exact h.heard
  | gaveUp e => exact h.gaveUp e
  | looked => exact h.looked
  | answered => exact h.answered
  | counted => exact h.counted
  | rested caller => exact h.rested caller

theorem Alert.run (h : v.Alert) (ms : List Move) : (v.run ms).Alert := by
  induction ms generalizing v with
  | nil => exact h
  | cons m ms ih => exact ih (h.step m)

theorem alert_start {tables : Connections} {channel : EventChannel} (htables : tables.Occupied)
    (hchannel : channel.Sound) (caller : CallerId) : (start tables channel caller).Alert where
  occupied := htables
  sound := hchannel
  behind := Nat.le_refl _
  unheard q hphase := nomatch hphase
  heeds q hq := by
    obtain ⟨c, htold, -⟩ := hq.of_dialing rfl
    cases htold

/-- Whenever a task waits for the end of its connection to a peer and has neither an event to look at nor
is to be told that events were lost, there is a connection to that peer. The task may have been set going
at any time; node, task and all others move as they like. -/
theorem connected_of_nothing_unheard (self : PeerId) (before : List Connections.Input)
    (past : List Event) (caller : CallerId) (ms : List Move) (p : PeerId) :
    let v := (start ((Connections.empty self).run before).1 (EventChannel.empty.sendAll past) caller).run ms
    v.task.phase = .watching p ∨ v.task.phase = .counting p →
      (v.channel.receive v.task.receiver).1 = .nothing → 0 < v.tables.count p := by
  intro v hphase hnothing
  have h : v.Alert := (alert_start ((Connections.occupied_empty self).run before)
    (EventChannel.sound_empty.sendAll past) caller).run ms
  rcases h.sound.receive_cases v.task.receiver with
    ⟨hfound, -⟩ | ⟨e, hfound, -⟩ | ⟨-, holdest, hsent, hunread⟩
  · cases hfound ▸ hnothing
  · cases hfound ▸ hnothing
  rcases hphase with hwatching | hcounting
  · rcases h.heeds p (.watching hwatching) with hlisted | hlost | howed
    · exact List.length_pos_of_ne_nil (h.occupied.contains_iff.1 hlisted)
    · omega
    · rw [hunread] at howed
      cases howed
  · have hbehind := h.unheard p hcounting
    omega

/-- A second connection to the peer comes up and the first goes away before the task looks. -/
theorem connected_of_nothing_unheard_of_replaced :
    let self : PeerId := ⟨[0]⟩
    let p : PeerId := ⟨[1]⟩
    let at_ : Address := [.memory 1]
    let ms : List Move := [.met (.dial none at_ 0 (.begun 0)), .met (.established p ⟨0, at_, self⟩), .heard,
      .met (.established p ⟨1, at_, p⟩), .met (.closed p 0), .looked, .looked]
    let v := (start ((Connections.empty self).run []).1 (EventChannel.empty.sendAll [.started]) 0).run ms
    v.task.phase = .watching p ∧ (v.channel.receive v.task.receiver).1 = .nothing ∧
      0 < v.tables.count p := by
  intro self p at_ ms
  have h := connected_of_nothing_unheard self [] [.started] 0 ms p
  exact ⟨by decide, by decide, h (Or.inl (by decide)) (by decide)⟩

end Vigil

end SealedCustody
