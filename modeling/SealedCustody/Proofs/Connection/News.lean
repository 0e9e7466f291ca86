import SealedCustody.Proofs.Connection.Convergence
import Mathlib.Data.List.Chain

/-!
# What a node tells of its peers

A node tells when a peer gets connected and when it no longer is. The two are told far apart, when a
connection is entered and when one is reported closed, and between them connections come and go of which
nothing is told: redundant ones, ones whose dial was given up, ones that are reported closed and were
never listed. What a step tells of a peer can still be read off the tables before and after it
(`byTurns_step`), and so the news of a peer in a run come by turns, and the last of them says whether the
peer is listed (`peer_news_alternate`).

The network is held to no rules here: ids may repeat, and anything may be reported of any connection. It
is enough that a peer is listed only with some connection (`Occupied`). What only asks about the tables,
or is about the addresses that the node itself listens on, is no input: it neither changes the tables nor
tells of a peer.
-/

namespace SealedCustody.Connections

variable {c : Connections} {i : Input} {p q : PeerId} {l : LiveConnection} {id : ConnectionId}
  {es fs : List Event} {a b b' : Bool}

/-! ## News -/

/-- What an effect tells of a peer: that it is connected, or that it no longer is. -/
def Effect.news? (p : PeerId) : Effect → Option Event
  | .emit e => if e = .peerConnected p ∨ e = .peerDisconnected p then some e else none
  | _ => none

/-- What effects tell of a peer, in order. -/
def news (p : PeerId) (effects : List Effect) : List Event := effects.filterMap (Effect.news? p)

theorem news_append (p : PeerId) (xs ys : List Effect) : news p (xs ++ ys) = news p xs ++ news p ys :=
  List.filterMap_append

theorem news_eq_nil {effects : List Effect} (h : ∀ e, .emit e ∉ effects) : news p effects = [] := by
  refine List.filterMap_eq_nil_iff.2 fun x hx => ?_
  cases x with
  | emit e => exact absurd hx (h e)
  | _ => rfl

theorem news_emit (p : PeerId) (e : Event) :
    news p [.emit e] = if e = .peerConnected p ∨ e = .peerDisconnected p then [e] else [] := by
  unfold news Effect.news?
  by_cases h : e = .peerConnected p ∨ e = .peerDisconnected p
  · simp only [List.filterMap_cons, List.filterMap_nil, if_pos h]
  · simp only [List.filterMap_cons, List.filterMap_nil, if_neg h]

theorem news_answerAll (p : PeerId) (d : Option PendingDial) (r : Except Error Connection) :
    news p (answerAll d r) = [] := by
  refine news_eq_nil fun e he => ?_
  cases d with
  | none => cases he
  | some d =>
    obtain ⟨w, -, hw⟩ := List.mem_map.1 he
    cases hw

/-! ## By turns -/

/-- News of a peer that come by turns, from whether it is connected at first to whether it is in the
end. -/
inductive ByTurns (p : PeerId) : Bool → List Event → Bool → Prop where
  | nil (b : Bool) : ByTurns p b [] b
  | connected {es : List Event} {b : Bool} (rest : ByTurns p true es b) :
      ByTurns p false (.peerConnected p :: es) b
  | disconnected {es : List Event} {b : Bool} (rest : ByTurns p false es b) :
      ByTurns p true (.peerDisconnected p :: es) b

theorem ByTurns.append (h : ByTurns p a es b) (h' : ByTurns p b fs b') :
    ByTurns p a (es ++ fs) b' := by
  induction h with
  | nil => exact h'
  | connected rest ih => exact .connected (ih h')
  | disconnected rest ih => exact .disconnected (ih h')

/-- The first news that come are of a change. -/
theorem ByTurns.head (h : ByTurns p a es b) :
    ∀ e ∈ es.head?, e = if a then .peerDisconnected p else .peerConnected p := by
  cases h with
  | nil => exact fun e he => nomatch he
  | connected => exact fun e he => (Option.some.inj he).symm
  | disconnected => exact fun e he => (Option.some.inj he).symm

theorem ByTurns.isChain (h : ByTurns p a es b) : es.IsChain (· ≠ ·) := by
  induction h with
  | nil => exact .nil
  | connected rest ih =>
    refine List.isChain_cons.2 ⟨fun e he => ?_, ih⟩
    rw [rest.head e he]
    exact Event.noConfusion
  | disconnected rest ih =>
    refine List.isChain_cons.2 ⟨fun e he => ?_, ih⟩
    rw [rest.head e he]
    exact Event.noConfusion

/-- The last news that came are of what is the case. -/
theorem ByTurns.last (h : ByTurns p a es b) :
    b = true ↔ es.getLast?.getD (if a then .peerConnected p else .peerDisconnected p) =
      .peerConnected p := by
  induction h with
  | nil b => cases b <;> simp
  | connected rest ih => rw [ih, List.getLast?_cons, Option.getD_some, if_pos rfl]
  | disconnected rest ih =>
    rw [ih, List.getLast?_cons, Option.getD_some, if_neg Bool.false_ne_true]

/-! ## Who is listed -/

/-- A peer is listed only with some connection. -/
def Occupied (c : Connections) : Prop := ∀ p, c.live.get? p ≠ some []

theorem occupied_empty (self : PeerId) : Occupied (empty self) := nofun

theorem Occupied.contains_iff (h : Occupied c) : c.live.contains p = true ↔ c.toPeer p ≠ [] := by
  unfold toPeer
  rw [Table.contains_eq_isSome]
  cases hp : c.live.get? p with
  | none => simp
  | some ls => simpa using fun hnil : ls = [] => h p (hnil ▸ hp)

/-- A connection that is entered has its peer listed. -/
theorem live_entered (c : Connections) (p : PeerId) (l : LiveConnection)
    (health : Table PeerId Health) : (c.entered p l health).live = c.live.insert p (c.merged p l) := by
  unfold entered
  rw [forgetDial_eq]

theorem Occupied.established (h : Occupied c) (q : PeerId) (l : LiveConnection) :
    Occupied (c.established q l).1 := by
  intro p
  rcases c.established_eq q l with ⟨-, heq⟩ | ⟨-, health, found, -, heq⟩
  · rw [heq]
    exact h p
  · rw [heq, live_entered, Table.get?_insert]
    split
    · exact fun hnil => c.merged_ne_nil q l (Option.some.inj hnil)
    · exact h p

theorem Occupied.closed (h : Occupied c) (q : PeerId) (id : ConnectionId) :
    Occupied (c.closed q id).1 := by
  intro p hnil
  rw [closed_live] at hnil
  split at hnil
  · obtain ⟨ls, -, hrest⟩ := Option.bind_eq_some_iff.1 hnil
    split at hrest
    · cases hrest
    · rename_i hall
      refine hall (List.all_eq_true.2 fun l hl => ?_)
      have hgone := List.filter_eq_nil_iff.1 (Option.some.inj hrest) l hl
      simpa using hgone
  · exact h p hnil

theorem Occupied.step (h : Occupied c) (i : Input) : Occupied (c.step i).1 := by
  cases i with
  | established q l => exact h.established q l
  | closed q id => exact h.closed q id
  | _ =>
    unfold Occupied
    rw [live_step]
    · exact h
    · exact nofun
    · exact nofun

theorem Occupied.run (h : Occupied c) (is : List Input) : Occupied (c.run is).1 := by
  induction is generalizing c with
  | nil => exact h
  | cons i is ih => exact ih (h.step i)

/-! ## What a step tells -/

/-- Only when connections come and go is anything told. -/
theorem news_step (hcomes : ∀ q l, i ≠ .established q l) (hgoes : ∀ q id, i ≠ .closed q id) :
    news p (c.step i).2 = [] := by
  cases i with
  | dial peer a caller v =>
    show news p (c.dial peer a caller v).2 = []
    rcases c.dial_cases peer a caller v with
      ⟨r, -, heq⟩ | ⟨q, d, -, -, heq⟩ | ⟨id, d, -, -, heq⟩ | ⟨-, heq⟩
    · rw [heq]
      rfl
    · rw [heq]
      rfl
    · rw [heq]
      rfl
    · rw [heq]
      cases v <;> cases peer <;> rfl
  | prune gone =>
    refine news_eq_nil fun e he => ?_
    obtain ⟨d, -, hd⟩ := List.mem_map.1 he
    cases hd
  | close id => rfl
  | established q l => exact absurd rfl (hcomes q l)
  | closed q id => exact absurd rfl (hgoes q id)
  | dialFailed id peer f =>
    show news p (c.dialFailed id peer f).2 = []
    obtain ⟨e, ⟨heq, -⟩ | ⟨q, d, -, -, -, -, heq⟩⟩ := c.dialFailed_eq id peer f
    · rw [heq]
      exact news_answerAll ..
    · rw [heq, news_append, news_answerAll, news_answerAll]
      rfl
  | ping q id rtt =>
    show news p (c.ping q id rtt).2 = []
    unfold ping
    split
    · rfl
    · cases rtt with
      | some t => rfl
      | none =>
        dsimp only
        split <;> rfl

/-- A connection that comes is told of if it is the first to its peer. -/
theorem news_enter (p q : PeerId) (l : LiveConnection) :
    news p (c.enter q l).2 = if q = p ∧ c.toPeer p = [] then [.peerConnected p] else [] := by
  unfold enter
  cases hlive : c.toPeer q with
  | nil =>
    dsimp only
    rw [news_emit]
    by_cases hq : q = p
    · subst hq
      rw [if_pos (Or.inl rfl), if_pos ⟨rfl, hlive⟩]
    · rw [if_neg (by simpa using hq), if_neg fun hboth => hq hboth.1]
  | cons existing rest =>
    have hnot : ¬ (q = p ∧ c.toPeer p = []) := by
      rintro ⟨rfl, hnil⟩
      rw [hlive] at hnil
      cases hnil
    dsimp only
    rw [if_neg hnot]
    split <;> rfl

theorem Occupied.byTurns_established (h : Occupied c) (p q : PeerId) (l : LiveConnection) :
    ByTurns p (c.live.contains p) (news p (c.established q l).2)
      ((c.established q l).1.live.contains p) := by
  rcases c.established_eq q l with ⟨-, heq⟩ | ⟨-, health, found, -, heq⟩
  · rw [heq]
    exact .nil _
  · rw [heq, live_entered, news_append, news_append, news_answerAll, news_answerAll, news_enter,
      List.append_nil, List.append_nil]
    by_cases hq : q = p
    · subst hq
      have hafter : (c.live.insert q (c.merged q l)).contains q = true := by
        rw [Table.contains_eq_isSome, Table.get?_insert, if_pos rfl]
        rfl
      rw [hafter]
      by_cases hnil : c.toPeer q = []
      · have hbefore : c.live.contains q = false := by
          rw [Bool.eq_false_iff]
          exact fun hlisted => h.contains_iff.1 hlisted hnil
        rw [if_pos ⟨rfl, hnil⟩, hbefore]
        exact .connected (.nil true)
      · rw [if_neg fun hboth => hnil hboth.2, h.contains_iff.2 hnil]
        exact .nil true
    · rw [if_neg fun hboth => hq hboth.1, Table.contains_eq_isSome, Table.contains_eq_isSome,
        Table.get?_insert, if_neg hq]
      exact .nil _

theorem byTurns_closed (c : Connections) (p q : PeerId) (id : ConnectionId) :
    ByTurns p (c.live.contains p) (news p (c.closed q id).2) ((c.closed q id).1.live.contains p) := by
  simp only [Table.contains_eq_isSome, closed_live]
  unfold closed
  cases hlive : c.live.get? q with
  | none =>
    have hafter : (if q = p then (none : Option (List LiveConnection)) else c.live.get? p) =
        c.live.get? p := by
      split
      · rename_i hq
        rw [← hq, hlive]
      · rfl
    dsimp only [Option.bind_none]
    rw [hafter]
    exact .nil _
  | some ls =>
    dsimp only
    rw [isEmpty_others, Option.bind_some]
    by_cases hall : ls.all (·.id = id) = true
    · rw [if_pos hall, if_pos hall]
      dsimp only
      rw [news_emit]
      by_cases hq : q = p
      · subst hq
        rw [if_pos (Or.inr rfl), if_pos rfl, hlive]
        exact .disconnected (.nil false)
      · rw [if_neg (by simpa using hq), if_neg hq]
        exact .nil _
    · rw [if_neg hall, if_neg hall]
      dsimp only
      by_cases hq : q = p
      · subst hq
        rw [if_pos rfl, hlive]
        exact .nil true
      · rw [if_neg hq]
        exact .nil _

/-- What a step tells of a peer is what changes in the tables. -/
theorem Occupied.byTurns_step (h : Occupied c) (p : PeerId) (i : Input) :
    ByTurns p (c.live.contains p) (news p (c.step i).2) ((c.step i).1.live.contains p) := by
  cases i with
  | established q l => exact h.byTurns_established p q l
  | closed q id => exact byTurns_closed c p q id
  | _ =>
    rw [news_step, live_step]
    · exact .nil _
    all_goals exact nofun

theorem Occupied.byTurns_run (h : Occupied c) (p : PeerId) (is : List Input) :
    ByTurns p (c.live.contains p) (news p (c.run is).2) ((c.run is).1.live.contains p) := by
  induction is generalizing c with
  | nil => exact .nil _
  | cons i is ih =>
    show ByTurns p _ (news p ((c.step i).2 ++ ((c.step i).1.run is).2)) _
    rw [news_append]
    exact (h.byTurns_step p i).append (ih (h.step i))

/-- Whatever a node meets with, what it tells of a peer comes by turns: first that the peer is connected,
then that it no longer is, and so on; and the peer is listed just when the last that was told of it is
that it is connected. -/
theorem peer_news_alternate (self p : PeerId) (is : List Input) :
    let told := news p ((empty self).run is).2
    told.IsChain (· ≠ ·) ∧ (∀ e ∈ told.head?, e = .peerConnected p) ∧
      (p ∈ ((empty self).run is).1.live.keys ↔ told.getLast? = some (.peerConnected p)) := by
  intro told
  have h : ByTurns p false told (((empty self).run is).1.live.contains p) :=
    (occupied_empty self).byTurns_run p is
  refine ⟨h.isChain, h.head, ?_⟩
  rw [Table.mem_keys, ← Table.contains_eq_isSome, h.last]
  cases told.getLast? with
  | none => simp
  | some e => simp

end SealedCustody.Connections
