import SealedCustody.Proofs.Connection.Handout

/-!
# The signals of streams

A stream runs on one connection, and the signal that it watches belongs to the peer. So what fires is
not bound to the connection under a stream: a signal fires when the end of the first connection to its
peer is ordered or reported (`Fires`), whichever connection that is. Of the stream this makes two things.
It hears of the end of a connection that it does not run on, and it hears of the end of its own only if
that one is first at the time, or it has been told before.

The invariant is `Watched`: a signal that has not fired is still the one that the subscribers of its
peer share, so the next firing for that peer reaches it.
-/

namespace SealedCustody

/-! ## Signals -/

namespace Closures

/-- Signals are told apart, and one that is still to fire has not fired. -/
structure Tidy (k : Closures) : Prop where
  current : ∀ {p : PeerId} {s : SignalId}, k.current.get? p = some s → s < k.next ∧ s ∉ k.fired
  unique : ∀ {p q : PeerId} {s : SignalId}, k.current.get? p = some s → k.current.get? q = some s →
    p = q
  past : ∀ {s : SignalId}, s ∈ k.fired → s < k.next

theorem tidy_empty : Tidy empty where
  current h := nomatch h
  unique h := nomatch h
  past h := nomatch h

variable {k : Closures} {p q : PeerId} {s : SignalId}

theorem get?_subscribe (k : Closures) (p : PeerId) :
    (k.subscribe p).2.current.get? p = some (k.subscribe p).1 := by
  unfold subscribe
  split
  · assumption
  · exact (Table.get?_insert ..).trans (if_pos rfl)

theorem get?_subscribe_of_some (h : k.current.get? q = some s) (p : PeerId) :
    (k.subscribe p).2.current.get? q = some s := by
  unfold subscribe
  split
  · exact h
  · rename_i hnone
    refine (Table.get?_insert ..).trans ((if_neg ?_).trans h)
    rintro rfl
    rw [hnone] at h
    cases h

theorem fired_subscribe (k : Closures) (p : PeerId) : (k.subscribe p).2.fired = k.fired := by
  unfold subscribe
  split <;> rfl

theorem Tidy.subscribe (h : k.Tidy) (p : PeerId) : (k.subscribe p).2.Tidy := by
  unfold Closures.subscribe
  split
  · exact h
  -- the new signal is one that nobody has
  have hkey : ∀ {q s}, (k.current.insert p k.next).get? q = some s →
      (q = p ∧ s = k.next) ∨ k.current.get? q = some s := by
    intro q s hq
    rw [Table.get?_insert] at hq
    split at hq
    · rename_i hpq
      exact Or.inl ⟨hpq.symm, (Option.some.inj hq).symm⟩
    · exact Or.inr hq
  refine ⟨fun {q s} hq => ?_, fun {q q' s} hq hq' => ?_, fun {s} hs => ?_⟩
  · show s < k.next + 1 ∧ s ∉ k.fired
    rcases hkey hq with ⟨-, rfl⟩ | hold
    · exact ⟨Nat.lt_succ_self _, fun hs => Nat.lt_irrefl _ (h.past hs)⟩
    · obtain ⟨hlt, hfresh⟩ := h.current hold
      exact ⟨Nat.lt_succ_of_lt hlt, hfresh⟩
  · rcases hkey hq with ⟨rfl, rfl⟩ | hold <;> rcases hkey hq' with ⟨rfl, hs⟩ | hold'
    · rfl
    · exact absurd (h.current hold').1 (Nat.lt_irrefl _)
    · exact absurd (h.current (hs ▸ hold)).1 (Nat.lt_irrefl _)
    · exact h.unique hold hold'
  · exact Nat.lt_succ_of_lt (h.past hs)

/-- Firing takes the signal of the peer away and leaves those of the others. -/
theorem get?_fire (k : Closures) (p q : PeerId) :
    (k.fire p).current.get? q = if p = q then none else k.current.get? q := by
  unfold fire
  split
  · exact Table.get?_erase ..
  · rename_i hnone
    split
    · rename_i hpq
      rw [← hpq, hnone]
    · rfl

theorem mem_fired_fire : s ∈ (k.fire p).fired ↔ k.current.get? p = some s ∨ s ∈ k.fired := by
  unfold fire
  split
  · rename_i t ht
    rw [List.mem_cons, ht]
    exact or_congr_left ⟨fun h => h ▸ rfl, fun h => (Option.some.inj h).symm⟩
  · rename_i hnone
    rw [hnone]
    exact ⟨Or.inr, fun h => h.resolve_left fun h => nomatch h⟩

theorem Tidy.fire (h : k.Tidy) (p : PeerId) : (k.fire p).Tidy := by
  have hnext : (k.fire p).next = k.next := by
    unfold Closures.fire
    split <;> rfl
  have hold : ∀ {q s}, (k.fire p).current.get? q = some s → p ≠ q ∧ k.current.get? q = some s := by
    intro q s hq
    rw [get?_fire] at hq
    split at hq
    · cases hq
    · rename_i hpq
      exact ⟨hpq, hq⟩
  refine ⟨fun {q s} hq => ?_, fun {q q' s} hq hq' => h.unique (hold hq).2 (hold hq').2, fun {s} hs => ?_⟩
  · obtain ⟨hpq, hq⟩ := hold hq
    refine ⟨hnext ▸ (h.current hq).1, fun hs => ?_⟩
    rcases mem_fired_fire.1 hs with hp | hs
    · exact hpq (h.unique hp hq)
    · exact (h.current hq).2 hs
  · rw [hnext]
    rcases mem_fired_fire.1 hs with hp | hs
    · exact (h.current hp).1
    · exact h.past hs

/-- A signal for a peer has fired or not: if not, it is the one of the peer. -/
structure Watched (k : Closures) (p : PeerId) (s : SignalId) (hasFired : Prop) : Prop where
  tidy : k.Tidy
  fired : s ∈ k.fired ↔ hasFired
  current : ¬ hasFired → k.current.get? p = some s

theorem Tidy.watched (h : k.Tidy) (p : PeerId) :
    (k.subscribe p).2.Watched p (k.subscribe p).1 False where
  tidy := h.subscribe p
  fired := ⟨fun hs => ((h.subscribe p).current (k.get?_subscribe p)).2 hs, False.elim⟩
  current _ := k.get?_subscribe p

variable {b : Prop}

theorem Watched.subscribe (h : k.Watched p s b) (q : PeerId) : (k.subscribe q).2.Watched p s b where
  tidy := h.tidy.subscribe q
  fired := by rw [fired_subscribe, h.fired]
  current hb := get?_subscribe_of_some (h.current hb) q

theorem Watched.fire (h : k.Watched p s b) (q : PeerId) : (k.fire q).Watched p s (b ∨ p = q) where
  tidy := h.tidy.fire q
  fired := by
    rw [mem_fired_fire, h.fired, or_comm]
    by_cases hb : b
    · exact iff_of_true (Or.inl hb) (Or.inl hb)
    · -- the signal is the one of its peer, and fires with it
      refine or_congr_right ⟨fun hq => h.tidy.unique (h.current hb) hq, ?_⟩
      rintro rfl
      exact h.current hb
  current hb := by
    rw [get?_fire, if_neg fun hqp => hb (Or.inr hqp.symm)]
    exact h.current fun h => hb (Or.inl h)

theorem Watched.congr {b' : Prop} (h : k.Watched p s b) (hb : b ↔ b') : k.Watched p s b' where
  tidy := h.tidy
  fired := h.fired.trans hb
  current hb' := h.current fun h => hb' (hb.1 h)

end Closures

namespace Connections

variable {c : Connections} {n n' : Ledger} {i : Input} {id : ConnectionId} {p : PeerId}

/-! ## Which signals a step fires -/

/-- The end of the first connection to a peer is reported or ordered. -/
def Fires (p : PeerId) (c : Connections) (i : Input) : Prop :=
  ∃ id, (c.toPeer p).head?.map (·.id) = some id ∧ (i = .closed p id ∨ Orders id c i)

theorem toPeer_of_primaryOf? (h : c.primaryOf? id = some p) :
    (c.toPeer p).head?.map (·.id) = some id := by
  obtain ⟨⟨q, ls⟩, he, rfl⟩ := Option.map_eq_some_iff.1 h
  have hfirst := List.find?_some he
  have hlive : c.live.get? q = some ls := Table.mem_entries.1 (List.mem_of_find?_eq_some he)
  unfold toPeer
  rw [hlive, Option.getD_some]
  cases ls with
  | nil => cases hfirst
  | cons l rest => simpa using hfirst

/-- A connection is the first of one peer at most. -/
theorem Sound.primaryOf?_eq_some_iff (hs : Sound c n) :
    c.primaryOf? id = some p ↔ (c.toPeer p).head?.map (·.id) = some id := by
  refine ⟨toPeer_of_primaryOf?, fun h => ?_⟩
  obtain ⟨l, hl, rfl⟩ := Option.map_eq_some_iff.1 h
  have hlive : c.Holds l.id (.live p) := ⟨l, List.mem_of_head? hl, rfl⟩
  cases hget : c.primaryOf? l.id with
  | some q =>
    obtain ⟨m, hm, hid⟩ := Option.map_eq_some_iff.1 (toPeer_of_primaryOf? hget)
    have hlive' : c.Holds l.id (.live q) := ⟨m, List.mem_of_head? hm, hid⟩
    exact congrArg some (Place.live.inj (hs.placed.unique hlive' hlive))
  | none =>
    unfold toPeer at hl
    cases hp : c.live.get? p with
    | none =>
      rw [hp] at hl
      cases hl
    | some ls =>
      rw [hp] at hl
      have hnone := List.find?_eq_none.1 (Option.map_eq_none_iff.1 hget) (p, ls)
        (Table.mem_entries.2 hp)
      change ls.head? = some l at hl
      simp [hl] at hnone

theorem closures_forgetDial (c : Connections) (id : ConnectionId) :
    (c.forgetDial id).closures = c.closures := by
  rw [forgetDial_eq]

theorem closures_dial (c : Connections) (peer : Option PeerId) (a : Address) (caller : CallerId)
    (v : Verdict) : (c.dial peer a caller v).1.closures = c.closures := by
  rcases c.dial_cases peer a caller v with
    ⟨r, -, heq⟩ | ⟨p, d, -, -, heq⟩ | ⟨id, d, -, -, heq⟩ | ⟨-, heq⟩
  · rw [heq]
  · rw [heq]
  · rw [heq]
  · rw [heq]
    cases v <;> cases peer <;> rfl

theorem closures_established (c : Connections) (p : PeerId) (l : LiveConnection) :
    (c.established p l).1.closures = c.closures := by
  rcases c.established_eq p l with ⟨-, heq⟩ | ⟨-, health, found, -, heq⟩
  · rw [heq]
  · rw [heq]
    exact closures_forgetDial ..

theorem closures_dialFailed (c : Connections) (id : ConnectionId) (peer : Option PeerId)
    (f : DialFault) : (c.dialFailed id peer f).1.closures = c.closures := by
  obtain ⟨e, ⟨heq, -⟩ | ⟨p, d, -, -, -, -, heq⟩⟩ := c.dialFailed_eq id peer f
  · rw [heq]
    exact closures_forgetDial ..
  · rw [heq]
    exact closures_forgetDial ..

theorem closures_close (c : Connections) (id : ConnectionId) :
    (c.close id).1.closures = match c.primaryOf? id with
      | some p => c.closures.fire p
      | none => c.closures := by
  unfold close
  cases c.primaryOf? id with
  | some p => rfl
  | none => rfl

theorem closures_closed (c : Connections) (p : PeerId) (id : ConnectionId) :
    (c.closed p id).1.closures =
      if (c.toPeer p).head?.map (·.id) = some id then c.closures.fire p else c.closures := by
  unfold closed toPeer
  split
  · rename_i hnone
    rw [hnone]
    rfl
  · rename_i ls hls
    rw [hls]
    have hfirst : (ls.head?.any (·.id = id) = true) ↔ ls.head?.map (·.id) = some id := by
      cases ls with
      | nil => simp
      | cons l rest => simp
    dsimp only
    rw [Option.getD_some, if_congr hfirst rfl rfl]
    split <;> rfl

/-- Pings fire a signal only if they order the end of the connection. -/
theorem closures_ping (c : Connections) (p : PeerId) (id : ConnectionId) (rtt : Option Span) :
    (Orders id c (.ping p id rtt) ∧ c.primaryOf? id = some p ∧
      (c.ping p id rtt).1.closures = c.closures.fire p) ∨
    ((∀ k, ¬ Orders k c (.ping p id rtt)) ∧ (c.ping p id rtt).1.closures = c.closures) := by
  unfold ping
  by_cases hfirst : c.primaryOf? id = some p
  · rw [if_neg (not_not_intro hfirst)]
    cases rtt with
    | some t =>
      refine Or.inr ⟨?_, rfl⟩
      rintro k (h | ⟨_, h, -⟩)
      · cases h
      · cases h
    | none =>
      dsimp only
      split
      · rename_i hfailures
        refine Or.inl ⟨Or.inr ⟨p, rfl, hfirst, hfailures⟩, hfirst, ?_⟩
        rw [closures_close]
        show (match c.primaryOf? id with | some q => c.closures.fire q | none => c.closures) = _
        rw [hfirst]
      · rename_i hfailures
        refine Or.inr ⟨?_, rfl⟩
        rintro k (h | ⟨q, h, -, hmany⟩)
        · cases h
        · cases h
          exact hfailures hmany
  · rw [if_pos hfirst]
    refine Or.inr ⟨?_, rfl⟩
    rintro k (h | ⟨q, h, hq, -⟩)
    · cases h
    · cases h
      exact hfirst hq

/-- The connection whose end an input may report or order. -/
def Input.ends? : Input → Option ConnectionId
  | .closed _ id => some id
  | .close id => some id
  | .ping _ id _ => some id
  | _ => none

theorem ends?_eq_some (h : i = .closed p id ∨ Orders id c i) : i.ends? = some id := by
  rcases h with rfl | rfl | ⟨q, rfl, -⟩
  · rfl
  · rfl
  · rfl

theorem not_fires_of_ends? (h : i.ends? = none) (p : PeerId) : ¬ Fires p c i := by
  rintro ⟨id, -, hends⟩
  rw [ends?_eq_some hends] at h
  cases h

/-- If the end of a connection is reported or ordered, the signal fires of the peer to which it is the
first. -/
theorem Sound.fires_iff (hs : Sound c n) {q : PeerId} (hfirst : (c.toPeer q).head?.map (·.id) = some id)
    (hends : i = .closed q id ∨ Orders id c i) : Fires p c i ↔ p = q := by
  constructor
  · rintro ⟨k, hk, hends'⟩
    obtain rfl : k = id := Option.some.inj ((ends?_eq_some hends').symm.trans (ends?_eq_some hends))
    rw [← hs.primaryOf?_eq_some_iff] at hk hfirst
    exact Option.some.inj (hk.symm.trans hfirst)
  · rintro rfl
    exact ⟨id, hfirst, hends⟩

/-- A step fires the signal of the peer whose first connection it ends, or none. -/
theorem Sound.closures_step (hs : Sound c n) (i : Input) :
    ((c.step i).1.closures = c.closures ∧ ∀ p, ¬ Fires p c i) ∨
      ∃ q, (c.step i).1.closures = c.closures.fire q ∧ ∀ p, Fires p c i ↔ p = q := by
  cases i with
  | dial peer a caller v => exact Or.inl ⟨closures_dial .., not_fires_of_ends? rfl⟩
  | prune gone => exact Or.inl ⟨rfl, not_fires_of_ends? rfl⟩
  | established p l => exact Or.inl ⟨closures_established .., not_fires_of_ends? rfl⟩
  | dialFailed id peer f => exact Or.inl ⟨closures_dialFailed .., not_fires_of_ends? rfl⟩
  | close id =>
    show ((c.close id).1.closures = _ ∧ _) ∨ ∃ q, (c.close id).1.closures = _ ∧ _
    rw [closures_close]
    cases hfirst : c.primaryOf? id with
    | none =>
      refine Or.inl ⟨rfl, ?_⟩
      rintro p ⟨k, hk, hends⟩
      obtain rfl : id = k := Option.some.inj (ends?_eq_some hends)
      rw [← hs.primaryOf?_eq_some_iff, hfirst] at hk
      cases hk
    | some q =>
      refine Or.inr ⟨q, rfl, ?_⟩
      intro p
      exact hs.fires_iff (toPeer_of_primaryOf? hfirst) (Or.inr (Or.inl rfl))
  | closed q id =>
    show ((c.closed q id).1.closures = _ ∧ _) ∨ ∃ q', (c.closed q id).1.closures = _ ∧ _
    rw [closures_closed]
    by_cases hfirst : (c.toPeer q).head?.map (·.id) = some id
    · rw [if_pos hfirst]
      refine Or.inr ⟨q, rfl, ?_⟩
      intro p
      exact hs.fires_iff hfirst (Or.inl rfl)
    · rw [if_neg hfirst]
      refine Or.inl ⟨rfl, ?_⟩
      rintro p ⟨k, hk, h | h | ⟨_, h, -⟩⟩
      · cases h
        exact hfirst hk
      · cases h
      · cases h
  | ping q id rtt =>
    rcases closures_ping c q id rtt with ⟨horders, hfirst, heq⟩ | ⟨hnone, heq⟩
    · refine Or.inr ⟨q, heq, ?_⟩
      intro p
      exact hs.fires_iff (toPeer_of_primaryOf? hfirst) (Or.inr horders)
    · refine Or.inl ⟨heq, ?_⟩
      rintro p ⟨k, -, h | h⟩
      · cases h
      · exact hnone k h

/-! ## Turns -/

/-- What goes on at a node with streams: the tables meet with something, or a stream to a peer is
opened, which then watches the signal of the peer. -/
inductive Turn where
  | met (i : Input)
  | opened (p : PeerId)

/-- Takes a turn. -/
def turn (c : Connections) : Turn → Connections
  | .met i => (c.step i).1
  | .opened p => { c with closures := (c.closures.subscribe p).2 }

/-- Takes turns in order. -/
def turns (c : Connections) (ts : List Turn) : Connections := ts.foldl turn c

/-- The network allows turns one after another. -/
inductive Ledger.AdmitsTurns : Ledger → Connections → List Turn → Prop where
  | nil {n : Ledger} {c : Connections} : AdmitsTurns n c []
  | met {n n' : Ledger} {c : Connections} {i : Input} {ts : List Turn} (first : n.Admits c i n')
      (rest : AdmitsTurns n' (c.turn (.met i)) ts) : AdmitsTurns n c (.met i :: ts)
  | opened {n : Ledger} {c : Connections} {p : PeerId} {ts : List Turn}
      (rest : AdmitsTurns n (c.turn (.opened p)) ts) : AdmitsTurns n c (.opened p :: ts)

/-- In some turn the end of the first connection to a peer is reported or ordered. -/
def FiresIn (p : PeerId) (c : Connections) : List Turn → Prop
  | [] => False
  | .met i :: ts => Fires p c i ∨ FiresIn p (c.turn (.met i)) ts
  | .opened q :: ts => FiresIn p (c.turn (.opened q)) ts

variable {ts us : List Turn} {s : SignalId} {b : Prop}

/-- Opening a stream leaves the tables in tune. -/
theorem Sound.opened (hs : Sound c n) (p : PeerId) : Sound (c.turn (.opened p)) n :=
  hs.of_fewer { Fewer.refl c with } (fun _ hid => hid) fun _ _ hpeer => hpeer

theorem Sound.tidy_step (hs : Sound c n) (ht : c.closures.Tidy) (i : Input) :
    (c.step i).1.closures.Tidy := by
  rcases hs.closures_step i with ⟨heq, -⟩ | ⟨q, heq, -⟩
  · exact heq ▸ ht
  · exact heq ▸ ht.fire q

theorem Sound.watched_step (hs : Sound c n) (hw : c.closures.Watched p s b) (i : Input) :
    (c.step i).1.closures.Watched p s (b ∨ Fires p c i) := by
  rcases hs.closures_step i with ⟨heq, hnone⟩ | ⟨q, heq, hq⟩
  · rw [heq]
    exact hw.congr ⟨Or.inl, fun h => h.resolve_right (hnone p)⟩
  · rw [heq]
    exact (hw.fire q).congr (or_congr_right (hq p).symm)

/-- Up to some point of what the network allows, the tables are in tune and the signals told apart. -/
theorem Sound.turns (hs : Sound c n) (ht : c.closures.Tidy) (h : n.AdmitsTurns c (ts ++ us)) :
    ∃ n', Sound (c.turns ts) n' ∧ (c.turns ts).closures.Tidy ∧ n'.AdmitsTurns (c.turns ts) us := by
  induction ts generalizing c n with
  | nil => exact ⟨n, hs, ht, h⟩
  | cons t ts ih =>
    cases h with
    | met first rest => exact ih (hs.step first) (hs.tidy_step ht _) rest
    | opened rest => exact ih (hs.opened _) (ht.subscribe _) rest

/-- A signal has fired in the end if it had before, or in one of the turns. -/
theorem Sound.watched_turns (hs : Sound c n) (hw : c.closures.Watched p s b)
    (h : n.AdmitsTurns c (ts ++ us)) :
    ∃ n', Sound (c.turns ts) n' ∧ (c.turns ts).closures.Watched p s (b ∨ FiresIn p c ts) := by
  induction ts generalizing c n b with
  | nil => exact ⟨n, hs, hw.congr (or_false b).symm.to_iff⟩
  | cons t ts ih =>
    cases h with
    | met first rest =>
      obtain ⟨n', hs', hw'⟩ := ih (hs.step first) (hs.watched_step hw _) rest
      exact ⟨n', hs', hw'.congr or_assoc⟩
    | opened rest => exact ih (hs.opened _) (hw.subscribe _) rest

/-- A stream on some connection hears of the end of it, once that is reported or ordered by name, just
when the connection is then the first to its peer, or when since the opening of the stream the end of a
connection was reported or ordered that was the first then. -/
theorem end_heard_iff (self : PeerId) (before after : List Turn) (p : PeerId) (id : ConnectionId)
    (last : Input) (hlast : last = .closed p id ∨ last = .close id)
    (h : Ledger.blank.AdmitsTurns (empty self) (before ++ .opened p :: (after ++ [.met last]))) :
    let opening := (empty self).turns before
    let ending := opening.turns (.opened p :: after)
    (opening.closures.subscribe p).1 ∈ (ending.turn (.met last)).closures.fired ↔
      (ending.toPeer p).head?.map (·.id) = some id ∨ FiresIn p opening (.opened p :: after) := by
  intro opening ending
  obtain ⟨n, hs, ht, hrest⟩ := (sound_empty self).turns Closures.tidy_empty h
  have hopened : Sound (opening.turn (.opened p)) n := hs.opened p
  cases hrest with
  | opened rest =>
    obtain ⟨n', hs', hw⟩ := hopened.watched_turns (ht.watched p) rest
    have hends : last = .closed p id ∨ Orders id ending last := hlast.imp_right Or.inl
    have hlastFires : Fires p ending last ↔ (ending.toPeer p).head?.map (·.id) = some id := by
      constructor
      · rintro ⟨k, hk, hends'⟩
        obtain rfl : k = id := Option.some.inj ((ends?_eq_some hends').symm.trans (ends?_eq_some hends))
        exact hk
      · intro hfirst
        exact ⟨id, hfirst, hends⟩
    have hend := (hs'.watched_step hw last).fired
    rw [false_or, or_comm] at hend
    exact hend.trans (or_congr_left hlastFires)

/-- A stream runs on a connection that a preferred one takes the place of, and is not told when its own
connection has gone. -/
theorem end_heard_iff_of_replaced :
    let self : PeerId := ⟨[1]⟩
    let p : PeerId := ⟨[0]⟩
    let at_ : Address := [.memory 1]
    let before : List Turn := [.met (.established p ⟨0, at_, self⟩)]
    let after : List Turn := [.met (.established p ⟨1, at_, p⟩)]
    let opening := (empty self).turns before
    let ending := opening.turns (.opened p :: after)
    Ledger.blank.AdmitsTurns (empty self) (before ++ .opened p :: (after ++ [.met (.closed p 0)])) ∧
      (opening.toPeer p).head?.map (·.id) = some 0 ∧ 0 ∈ (ending.toPeer p).map (·.id) ∧
      (opening.closures.subscribe p).1 ∉ (ending.turn (.met (.closed p 0))).closures.fired := by
  intro self p at_ before after opening ending
  have h : Ledger.blank.AdmitsTurns (empty self)
      (before ++ .opened p :: (after ++ [.met (.closed p 0)])) :=
    .met (.arrive (by decide) (by decide)) <| .opened <|
      .met (.arrive (by decide) (by decide)) <| .met (.closed p 0) .nil
  refine ⟨h, by decide, by decide, fun hfired => ?_⟩
  rcases (end_heard_iff self before after p 0 (.closed p 0) (Or.inl rfl) h).1 hfired with hfirst | hsince
  · exact absurd hfirst (by decide)
  · rcases hsince with ⟨k, -, h | h | ⟨_, h, -⟩⟩ | hnone
    · cases h
    · cases h
    · cases h
    · exact hnone

end Connections

end SealedCustody
