import SealedCustody.Proofs.Connection.Run
import Mathlib.Data.List.Perm.Basic

/-!
# The callers of a node

Whoever wants a connection is answered once. Until then the caller waits in one queue, under the peer
or under the dial to the address that it named, unless it has gone away and was found gone.

That is a matter of bookkeeping. For each caller, the answers it got, the places where it waits and the
times it was found gone add up to the times it has asked: a step keeps the account
(`balance_step`), and so does a run (`balance_run`). The account could only go wrong where a dial is
entered under the name of another, so nothing is asked of the network but that it gives each dial that
it begins a name of its own.

What the answers say is read off a single step (`answer_cases`): an answer goes to the one who asks, or
to everyone in a queue.
-/

namespace SealedCustody.Connections

variable {c : Connections} {i : Input} {is : List Input} {w : CallerId}

/-! ## Who asks, who waits, who is answered -/

/-- The caller that wants a connection. -/
def Input.caller? : Input → Option CallerId
  | .dial _ _ caller _ => some caller
  | _ => none

/-- A caller wants a connection, to a certain peer or to whoever is at an address. -/
def Input.Asks (i : Input) (w : CallerId) (target : Option PeerId) : Prop :=
  ∃ a v, i = .dial target a w v

/-- The callers that wanted connections. -/
def asked (is : List Input) : List CallerId := is.filterMap Input.caller?

/-- The caller that is answered. -/
def Effect.caller? : Effect → Option CallerId
  | .answer caller _ => some caller
  | _ => none

/-- The callers that were answered. -/
def answered (effects : List Effect) : List CallerId := effects.filterMap Effect.caller?

/-- Where callers wait: for a peer, or for a dial to a bare address. -/
inductive Queue where
  | peer (p : PeerId)
  | bare (id : ConnectionId)
deriving DecidableEq

/-- The peer that a queue is for. -/
def Queue.peer? : Queue → Option PeerId
  | .peer p => some p
  | .bare _ => none

/-- The dial that a queue waits for. -/
def pending? (c : Connections) : Queue → Option PendingDial
  | .peer p => c.pendingPeers.get? p
  | .bare id => c.pendingDials.get? id

/-- The callers of the dials of a table. -/
def callersOf {κ : Type} [DecidableEq κ] (t : Table κ PendingDial) : List CallerId :=
  t.values.flatMap (·.callers)

/-- The callers that wait. -/
def waiting (c : Connections) : List CallerId :=
  callersOf c.pendingPeers ++ callersOf c.pendingDials

/-- The dial that begins, if one does. -/
def begins? (c : Connections) : Input → Option ConnectionId
  | .dial peer a caller (.begun id) =>
    match c.enlist peer a caller with
    | .vacant => some id
    | _ => none
  | _ => none

/-- The dials that begin in a run. -/
def begun (c : Connections) : List Input → List ConnectionId
  | [] => []
  | i :: is => (c.begins? i).toList ++ begun (c.step i).1 is

theorem asked_append (is js : List Input) : asked (is ++ js) = asked is ++ asked js :=
  List.filterMap_append

theorem Input.Asks.caller?_eq {target : Option PeerId} (h : i.Asks w target) :
    i.caller? = some w := by
  obtain ⟨a, v, rfl⟩ := h
  rfl

theorem mem_asked_of_asks {target : Option PeerId} (hi : i ∈ is) (h : i.Asks w target) :
    w ∈ asked is :=
  List.mem_filterMap.2 ⟨i, hi, h.caller?_eq⟩

theorem mem_answered {es : List Effect} : w ∈ answered es ↔ ∃ r, .answer w r ∈ es := by
  constructor
  · intro h
    obtain ⟨e, he, hw⟩ := List.mem_filterMap.1 h
    cases e with
    | answer caller r =>
      obtain rfl := Option.some.inj hw
      exact ⟨r, he⟩
    | _ => cases hw
  · rintro ⟨r, h⟩
    exact List.mem_filterMap.2 ⟨_, h, rfl⟩

section

variable {κ : Type} [DecidableEq κ] {t : Table κ PendingDial} {k k' : κ} {d d' : PendingDial}

theorem mem_answerAll {d : Option PendingDial} {r r' : Except Error Connection} :
    .answer w r' ∈ answerAll d r ↔ r' = r ∧ ∃ d', d = some d' ∧ w ∈ d'.callers := by
  cases d with
  | none => simp [answerAll]
  | some d => simp [answerAll, and_comm, eq_comm]

theorem answer_of_mem_answerAll {d : Option PendingDial} {r : Except Error Connection} {e : Effect}
    (h : e ∈ answerAll d r) : ∃ v, e = .answer v r := by
  cases d with
  | none => cases h
  | some d =>
    obtain ⟨v, -, rfl⟩ := List.mem_map.1 h
    exact ⟨v, rfl⟩

end

/-! ## Queues -/

theorem answered_enter (c : Connections) (p : PeerId) (l : LiveConnection) :
    answered (c.enter p l).2 = [] := by
  unfold enter
  split
  · rfl
  · split <;> rfl

theorem answered_closed (c : Connections) (p : PeerId) (id : ConnectionId) :
    answered (c.closed p id).2 = [] := by
  unfold closed
  split
  · rfl
  · dsimp only
    split <;> rfl

theorem answered_ping (c : Connections) (p : PeerId) (id : ConnectionId) (rtt : Option Span) :
    answered (c.ping p id rtt).2 = [] := by
  unfold ping
  split
  · rfl
  · cases rtt with
    | some t => rfl
    | none =>
      dsimp only
      split <;> rfl

theorem pending?_forgetDial {aborted : List ConnectionId} {id : ConnectionId} {q : Queue}
    {d : PendingDial} (h : (forgetDial { c with aborted } id).pending? q = some d) :
    c.pending? q = some d := by
  cases q with
  | peer p =>
    have hp : (forgetDial { c with aborted } id).pendingPeers.get? p = some d := h
    rw [forgetDial_eq] at hp
    exact hp
  | bare k =>
    have hk : (forgetDial { c with aborted } id).pendingDials.get? k = some d := h
    rw [get?_pendingDials_forgetDial] at hk
    split at hk
    · cases hk
    · exact hk

theorem pending?_erase {p : PeerId} {q : Queue} {d : PendingDial}
    (h : pending? { c with pendingPeers := c.pendingPeers.erase p } q = some d) :
    c.pending? q = some d := by
  cases q with
  | peer p' =>
    have hp : (c.pendingPeers.erase p).get? p' = some d := h
    rw [Table.get?_erase] at hp
    split at hp
    · cases hp
    · exact hp
  | bare k => exact h

theorem pending?_entered {p : PeerId} {l : LiveConnection} {health : Table PeerId Health}
    {q : Queue} {d : PendingDial} (h : (c.entered p l health).pending? q = some d) :
    c.pending? q = some d := by
  unfold entered at h
  exact pending?_erase (c := { c with live := _, health }) (pending?_forgetDial h)

theorem pending?_insert_peer {p : PeerId} {q : Queue} {d d' : PendingDial}
    (h : pending? { c with pendingPeers := c.pendingPeers.insert p d } q = some d') :
    (q = .peer p ∧ d' = d) ∨ c.pending? q = some d' := by
  cases q with
  | peer p' =>
    have hp : (c.pendingPeers.insert p d).get? p' = some d' := h
    rw [Table.get?_insert] at hp
    split at hp
    · rename_i hsame
      exact Or.inl ⟨hsame ▸ rfl, (Option.some.inj hp).symm⟩
    · exact Or.inr hp
  | bare k => exact Or.inr h

theorem pending?_insert_bare {id : ConnectionId} {addresses : Table Address ConnectionId} {q : Queue}
    {d d' : PendingDial} (h : pending? { c with
      pendingDials := c.pendingDials.insert id d, pendingAddresses := addresses } q = some d') :
    (q = .bare id ∧ d' = d) ∨ c.pending? q = some d' := by
  cases q with
  | peer p => exact Or.inr h
  | bare k =>
    have hk : (c.pendingDials.insert id d).get? k = some d' := h
    rw [Table.get?_insert] at hk
    split at hk
    · rename_i hsame
      exact Or.inl ⟨hsame ▸ rfl, (Option.some.inj hk).symm⟩
    · exact Or.inr hk

/-- A dial that is begun has a queue of its own, with the one caller. -/
theorem pending?_begin {peer : Option PeerId} {a : Address} {caller : CallerId} {v : Verdict}
    {q : Queue} {d' : PendingDial} (h : (c.begin peer a caller v).1.pending? q = some d') :
    c.pending? q = some d' ∨
      (q.peer? = peer ∧ d'.callers = [caller] ∧ ∀ id, q = .bare id → v = .begun id) := by
  cases v with
  | rejected f => exact Or.inl h
  | busy =>
    cases peer with
    | none => exact Or.inl h
    | some p =>
      rcases pending?_insert_peer h with ⟨rfl, rfl⟩ | hold
      · exact Or.inr ⟨rfl, rfl, fun _ hq => nomatch hq⟩
      · exact Or.inl hold
  | begun id =>
    cases peer with
    | none =>
      rcases pending?_insert_bare h with ⟨rfl, rfl⟩ | hold
      · exact Or.inr ⟨rfl, rfl, fun k hk => congrArg Verdict.begun (Queue.bare.inj hk)⟩
      · exact Or.inl hold
    | some p =>
      rcases pending?_insert_peer h with ⟨rfl, rfl⟩ | hold
      · exact Or.inr ⟨rfl, rfl, fun _ hq => nomatch hq⟩
      · exact Or.inl hold

theorem pending?_prune {gone : CallerId → Bool} {q : Queue} {d' : PendingDial}
    (h : (c.prune gone).1.pending? q = some d') :
    ∃ d, c.pending? q = some d ∧ d.callers.all gone = false ∧ d' = trimmed d gone := by
  cases q with
  | peer p => exact get?_stillAwaited.1 h
  | bare k => exact get?_stillAwaited.1 h

theorem mem_callers_join {d : PendingDial} {caller : CallerId} :
    w ∈ (PendingDial.join d caller).callers ↔ w ∈ d.callers ∨ w = caller := by
  simp [PendingDial.join]

/-- Who waits in a queue after a step has waited there before, or asks for the peer of the queue. The
queue itself is not new, unless it is for a dial that begins. -/
theorem pending?_step {q : Queue} {d' : PendingDial} (h : (c.step i).1.pending? q = some d') :
    (∀ v ∈ d'.callers, (∃ d, c.pending? q = some d ∧ v ∈ d.callers) ∨ i.Asks v q.peer?) ∧
      ∀ id, q = .bare id → (c.pending? q).isSome ∨ c.begins? i = some id := by
  -- most steps leave a queue as it was, or take it away
  have hkept : c.pending? q = some d' →
      (∀ v ∈ d'.callers, (∃ d, c.pending? q = some d ∧ v ∈ d.callers) ∨ i.Asks v q.peer?) ∧
        ∀ id, q = .bare id → (c.pending? q).isSome ∨ c.begins? i = some id := fun hd =>
    ⟨fun v hv => Or.inl ⟨d', hd, hv⟩, fun _ _ => Or.inl (by rw [hd]; rfl)⟩
  cases i with
  | dial peer a caller v =>
    change (c.dial peer a caller v).1.pending? q = some d' at h
    rcases c.dial_cases peer a caller v with
      ⟨r, -, heq⟩ | ⟨p, d, rfl, hd, heq⟩ | ⟨id, d, rfl, hd, heq⟩ | ⟨hvacant, heq⟩
    · rw [heq] at h
      exact hkept h
    · rw [heq] at h
      rcases pending?_insert_peer h with ⟨rfl, rfl⟩ | hold
      · refine ⟨fun w hw => ?_, fun _ hq => nomatch hq⟩
        rcases mem_callers_join.1 hw with hold | rfl
        · exact Or.inl ⟨d, hd, hold⟩
        · exact Or.inr ⟨a, v, rfl⟩
      · exact hkept hold
    · rw [heq] at h
      rcases pending?_insert_bare h with ⟨rfl, rfl⟩ | hold
      · refine ⟨fun w hw => ?_, fun _ _ => Or.inl (Option.isSome_of_eq_some hd)⟩
        rcases mem_callers_join.1 hw with hold | rfl
        · exact Or.inl ⟨d, hd, hold⟩
        · exact Or.inr ⟨a, v, rfl⟩
      · exact hkept hold
    · rw [heq] at h
      rcases pending?_begin h with hold | ⟨rfl, hcallers, hbegun⟩
      · exact hkept hold
      · refine ⟨fun w hw => Or.inr ?_, fun id hid => Or.inr ?_⟩
        · rw [hcallers, List.mem_singleton] at hw
          exact ⟨a, v, by rw [hw]⟩
        · rw [hbegun id hid, begins?, hvacant]
  | prune gone =>
    obtain ⟨d, hd, -, rfl⟩ := pending?_prune h
    exact ⟨fun w hw => Or.inl ⟨d, hd, (List.mem_filter.1 hw).1⟩,
      fun _ _ => Or.inl (Option.isSome_of_eq_some hd)⟩
  | close id =>
    obtain ⟨closures, heq⟩ := close_eq c id
    change (c.close id).1.pending? q = some d' at h
    rw [heq] at h
    exact hkept h
  | established p l =>
    change (c.established p l).1.pending? q = some d' at h
    rcases c.established_eq p l with ⟨-, heq⟩ | ⟨-, health, found, -, heq⟩
    · rw [heq] at h
      exact hkept h
    · rw [heq] at h
      exact hkept (pending?_entered h)
  | closed p id =>
    obtain ⟨-, hpeers, hdials, -, -⟩ := c.closed_rest p id
    have hsame : (c.closed p id).1.pending? q = c.pending? q := by
      cases q with
      | peer p' => exact congrArg (·.get? p') hpeers
      | bare k => exact congrArg (·.get? k) hdials
    exact hkept (hsame ▸ h)
  | dialFailed id peer f =>
    change (c.dialFailed id peer f).1.pending? q = some d' at h
    obtain ⟨e, ⟨heq, -⟩ | ⟨p, d, -, -, -, -, heq⟩⟩ := c.dialFailed_eq id peer f
    · rw [heq] at h
      exact hkept (pending?_forgetDial h)
    · rw [heq] at h
      exact hkept (pending?_forgetDial (pending?_erase h))
  | ping p id rtt =>
    obtain ⟨closures, health, heq⟩ := ping_eq c p id rtt
    change (c.ping p id rtt).1.pending? q = some d' at h
    rw [heq] at h
    exact hkept h

/-! ## What the answers say -/

/-- A connection that is handed out is the first one to its peer, and to the peer that was wanted. -/
def Suits (c : Connections) (target : Option PeerId) (r : Except Error Connection) : Prop :=
  ∀ conn, r = .ok conn → c.primary? conn.peer = some conn ∧ ∀ p, target = some p → conn.peer = p

theorem suits_error (c : Connections) (target : Option PeerId) (e : Error) :
    c.Suits target (.error e) :=
  fun _ h => nomatch h

theorem peer_of_primary? {p : PeerId} {found : Connection} (h : c.primary? p = some found) :
    found.peer = p := by
  obtain ⟨l, -, rfl⟩ := Option.map_eq_some_iff.1 h
  rfl

theorem suits_of_primary? {p : PeerId} {found : Connection} {target : Option PeerId}
    (h : c.primary? p = some found) (htarget : ∀ q, target = some q → p = q) :
    c.Suits target (.ok found) := by
  intro conn hconn
  cases hconn
  have hpeer := peer_of_primary? h
  exact ⟨hpeer ▸ h, fun q hq => hpeer.trans (htarget q hq)⟩

/-- Who is answered at once gets what it wants, or an error. -/
theorem suits_of_enlist {peer : Option PeerId} {a : Address} {caller : CallerId}
    {r : Except Error Connection} (h : c.enlist peer a caller = .answered r) : c.Suits peer r := by
  cases peer with
  | some p =>
    unfold enlist admitPeer at h
    dsimp only at h
    split at h
    · cases h
      exact c.suits_error _ _
    split at h
    · rename_i hfound
      cases h
      exact suits_of_primary? hfound fun q hq => Option.some.inj hq
    · split at h <;> cases h
  | none =>
    unfold enlist admitBare at h
    dsimp only at h
    split at h
    · rename_i hfound
      cases h
      obtain ⟨p, -, hp⟩ := Option.bind_eq_some_iff.1 hfound
      exact suits_of_primary? hp fun _ hq => nomatch hq
    split at h
    · cases h
    · split at h <;> cases h

theorem answer_begin {peer : Option PeerId} {a : Address} {caller : CallerId} {v : Verdict}
    {r : Except Error Connection} (h : .answer w r ∈ (c.begin peer a caller v).2) :
    w = caller ∧ ∃ e, r = .error e := by
  cases v with
  | rejected f =>
    cases List.mem_singleton.1 h
    exact ⟨rfl, _, rfl⟩
  | busy =>
    cases peer with
    | some p => cases h
    | none =>
      cases List.mem_singleton.1 h
      exact ⟨rfl, _, rfl⟩
  | begun id => cases peer <;> cases h

/-- All who wait in some queue, and among them a certain caller, are answered what suits the queue. -/
def Settles (c : Connections) (after : Connections × List Effect) (w : CallerId)
    (r : Except Error Connection) : Prop :=
  ∃ q d, c.pending? q = some d ∧ w ∈ d.callers ∧ after.1.Suits q.peer? r ∧
    ∀ v ∈ d.callers, .answer v r ∈ after.2

theorem answer_dial {peer : Option PeerId} {a : Address} {caller : CallerId} {v : Verdict}
    {r : Except Error Connection} (h : .answer w r ∈ (c.dial peer a caller v).2) :
    w = caller ∧ (c.dial peer a caller v).1.Suits peer r := by
  rcases c.dial_cases peer a caller v with
    ⟨r', hanswered, heq⟩ | ⟨p, d, -, -, heq⟩ | ⟨id, d, -, -, heq⟩ | ⟨-, heq⟩
  · rw [heq] at h ⊢
    cases List.mem_singleton.1 h
    exact ⟨rfl, suits_of_enlist hanswered⟩
  · rw [heq] at h
    cases h
  · rw [heq] at h
    cases h
  · rw [heq] at h
    obtain ⟨rfl, e, rfl⟩ := answer_begin h
    exact ⟨rfl, fun _ hok => nomatch hok⟩

theorem answer_established {p : PeerId} {l : LiveConnection} {r : Except Error Connection}
    (h : .answer w r ∈ (c.established p l).2) : c.Settles (c.established p l) w r := by
  rcases c.established_eq p l with ⟨-, heq⟩ | ⟨-, health, found, hfound, heq⟩
  · rw [heq] at h
    cases List.mem_singleton.1 h
  rw [heq] at h ⊢
  rcases List.mem_append.1 h with henter | htold
  · have hmem := mem_answered.2 ⟨r, henter⟩
    rw [answered_enter] at hmem
    cases hmem
  rcases List.mem_append.1 htold with hpeer | hbare
  · obtain ⟨rfl, d, hd, hw⟩ := mem_answerAll.1 hpeer
    refine ⟨.peer p, d, hd, hw, suits_of_primary? hfound fun _ => Option.some.inj, fun v hv => ?_⟩
    exact List.mem_append_right _ (List.mem_append_left _ (mem_answerAll.2 ⟨rfl, d, hd, hv⟩))
  · obtain ⟨rfl, d, hd, hw⟩ := mem_answerAll.1 hbare
    refine ⟨.bare l.id, d, hd, hw, suits_of_primary? hfound (fun _ hq => nomatch hq), fun v hv => ?_⟩
    exact List.mem_append_right _ (List.mem_append_right _ (mem_answerAll.2 ⟨rfl, d, hd, hv⟩))

theorem answer_dialFailed {id : ConnectionId} {peer : Option PeerId} {f : DialFault}
    {r : Except Error Connection} (h : .answer w r ∈ (c.dialFailed id peer f).2) :
    c.Settles (c.dialFailed id peer f) w r := by
  obtain ⟨e, ⟨heq, -⟩ | ⟨p, d, -, hd, -, -, heq⟩⟩ := c.dialFailed_eq id peer f
  · rw [heq] at h ⊢
    obtain ⟨rfl, d, hd, hw⟩ := mem_answerAll.1 h
    exact ⟨.bare id, d, hd, hw, suits_error _ _ _, fun v hv => mem_answerAll.2 ⟨rfl, d, hd, hv⟩⟩
  · rw [heq] at h ⊢
    rcases List.mem_append.1 h with hbare | hpeer
    · obtain ⟨rfl, d', hd', hw⟩ := mem_answerAll.1 hbare
      exact ⟨.bare id, d', hd', hw, suits_error _ _ _, fun v hv =>
        List.mem_append_left _ (mem_answerAll.2 ⟨rfl, d', hd', hv⟩)⟩
    · obtain ⟨rfl, d', hd', hw⟩ := mem_answerAll.1 hpeer
      cases hd'
      exact ⟨.peer p, d, hd, hw, suits_error _ _ _, fun v hv =>
        List.mem_append_right _ (mem_answerAll.2 ⟨rfl, d, rfl, hv⟩)⟩

/-- An answer goes to the one who asks, or to all who wait in a queue. -/
theorem answer_cases {r : Except Error Connection} (h : .answer w r ∈ (c.step i).2) :
    (∃ target, i.Asks w target ∧ (c.step i).1.Suits target r) ∨ c.Settles (c.step i) w r := by
  -- the other steps answer nobody
  have hnobody : answered (c.step i).2 ≠ [] := fun hnil =>
    List.not_mem_nil (hnil ▸ mem_answered.2 ⟨r, h⟩)
  cases i with
  | dial peer a caller v =>
    obtain ⟨rfl, hsuits⟩ := answer_dial h
    exact Or.inl ⟨peer, ⟨a, v, rfl⟩, hsuits⟩
  | prune gone => exact absurd (by simp [step, prune, answered, Effect.caller?]) hnobody
  | close id => exact absurd rfl hnobody
  | established p l => exact Or.inr (answer_established h)
  | closed p id => exact absurd (c.answered_closed p id) hnobody
  | dialFailed id peer f => exact Or.inr (answer_dialFailed h)
  | ping p id rtt => exact absurd (c.answered_ping p id rtt) hnobody

/-! ## Runs -/

/-- Whoever waits in a queue has asked for the peer of it, or for no peer if it is for none. -/
def Heeds (c : Connections) (past : List Input) : Prop :=
  ∀ q d, c.pending? q = some d → ∀ v ∈ d.callers, ∃ i ∈ past, i.Asks v q.peer?

theorem Heeds.step {past : List Input} (h : c.Heeds past) (i : Input) :
    (c.step i).1.Heeds (past ++ [i]) := by
  intro q d' hd' v hv
  rcases (pending?_step hd').1 v hv with ⟨d, hd, hold⟩ | hasks
  · obtain ⟨j, hj, hasks⟩ := h q d hd v hold
    exact ⟨j, List.mem_append_left _ hj, hasks⟩
  · exact ⟨i, List.mem_append_right _ (List.mem_singleton_self i), hasks⟩

theorem Heeds.run {past : List Input} (h : c.Heeds past) (is : List Input) :
    (c.run is).1.Heeds (past ++ is) := by
  induction is generalizing c past with
  | nil => exact (List.append_nil past).symm ▸ h
  | cons i is ih =>
    have hrun := ih (h.step i)
    rw [List.append_assoc] at hrun
    exact hrun

/-- A caller that asks once has one wish. -/
theorem Input.Asks.unique {j : Input} {target target' : Option PeerId} (honce : (asked is).Nodup)
    (hi : i ∈ is) (hj : j ∈ is) (h : i.Asks w target) (h' : j.Asks w target') :
    target = target' := by
  induction is with
  | nil => cases hi
  | cons x xs ih =>
    have hcons : asked (x :: xs) = asked [x] ++ asked xs := asked_append [x] xs
    rw [hcons] at honce
    obtain ⟨-, hrest, hapart⟩ := List.nodup_append.1 honce
    -- who asks first does not ask again
    have hagain : ∀ {k t t'}, x.Asks w t → k ∈ xs → ¬ k.Asks w t' := fun hx hk hk' =>
      hapart w (mem_asked_of_asks List.mem_cons_self hx) w (mem_asked_of_asks hk hk') rfl
    rcases List.mem_cons.1 hi with rfl | hixs <;> rcases List.mem_cons.1 hj with rfl | hjxs
    · obtain ⟨a, v, rfl⟩ := h
      obtain ⟨a', v', hsame⟩ := h'
      exact (Input.dial.inj hsame).1
    · exact absurd h' (hagain h hjxs)
    · exact absurd h (hagain h' hixs)
    · exact ih hrest hixs hjxs

end SealedCustody.Connections
