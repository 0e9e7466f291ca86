import SealedCustody.Proofs.Connection.Callers
import SealedCustody.Proofs.Connection.Convergence
import SealedCustody.Proofs.Connection.Tables

/-!
# Connections that are handed out while they close

Closing takes time: a connection stays in the tables from when the node asks for its end until the end
is reported. Whoever wants the peer meanwhile gets the first connection there is to it. This module says
when that is one the node is closing: just when the node has ordered its end by name or for want of
answers to pings (`Orders`), or when it was redundant and has come first since the one before it was
closed (`Promotes`).

The invariant is `Closing`. Every connection but the first is being closed (`Closing.spare`), and the
first is for one of these two reasons only (`Closing.first`); a connection that comes is not being closed
yet, since nobody but by name orders the end of what is still being dialed (`Closing.past`).
-/

namespace SealedCustody.Connections

variable {c : Connections} {n n' : Ledger} {i : Input} {is : List Input} {id : ConnectionId}
  {p : PeerId} {l : LiveConnection}

/-! ## Why a connection closes -/

/-- At some step of a run a thing happens. -/
def Happens (P : Connections → Input → Prop) (c : Connections) : List Input → Prop
  | [] => False
  | i :: is => P c i ∨ Happens P (c.step i).1 is

/-- The end of a connection is ordered: by name, or because its peer has not answered too many pings in
a row. -/
def Orders (id : ConnectionId) (c : Connections) (i : Input) : Prop :=
  i = .close id ∨ ∃ p, i = .ping p id none ∧ c.primaryOf? id = some p ∧
    maxPingFailures ≤ ((c.health.get? p).getD ⟨none, 0⟩).failures + 1

/-- The first connection to a peer is reported closed, and another comes first. -/
def Promotes (id : ConnectionId) (c : Connections) (i : Input) : Prop :=
  ∃ p gone, i = .closed p gone ∧ (c.toPeer p).head?.map (·.id) = some gone ∧
    ((c.step i).1.toPeer p).head?.map (·.id) = some id

/-- What is ordered is done. -/
theorem close_mem_of_orders (h : Orders id c i) : .close id ∈ (c.step i).2 := by
  rcases h with rfl | ⟨p, rfl, hfirst, hfailures⟩
  · exact List.mem_singleton_self _
  · show .close id ∈ (c.ping p id none).2
    unfold ping
    rw [if_neg (by simpa using hfirst)]
    dsimp only
    rw [if_pos hfailures]
    exact List.mem_singleton_self _

/-- Nobody is answered then. -/
theorem Orders.answered_eq_nil (h : Orders id c i) : answered (c.step i).2 = [] := by
  rcases h with rfl | ⟨p, rfl, -⟩
  · rfl
  · exact answered_ping c p id none

/-- Nor when another connection comes first. -/
theorem Promotes.answered_eq_nil (h : Promotes id c i) : answered (c.step i).2 = [] := by
  obtain ⟨p, gone, rfl, -⟩ := h
  exact answered_closed c p gone

/-- Answers close nothing. -/
theorem close_not_mem_answerAll (id : ConnectionId) (d : Option PendingDial)
    (r : Except Error Connection) : .close id ∉ answerAll d r := by
  intro h
  obtain ⟨v, hv⟩ := answer_of_mem_answerAll h
  cases hv

/-- A connection that comes has itself closed if its dial was given up or if it is redundant, and
otherwise the one whose place it takes. -/
theorem close_mem_established (h : .close id ∈ (c.established p l).2) :
    (id = l.id ∧ (l.id ∈ c.aborted ∨ l.id ∉ c.aborted ∧
      ∃ existing, (c.toPeer p).head? = some existing ∧ c.replaces p existing l = false)) ∨
    (l.id ∉ c.aborted ∧
      ∃ existing, (c.toPeer p).head? = some existing ∧ c.replaces p existing l = true ∧
        id = existing.id) := by
  rcases c.established_eq p l with ⟨haborted, heq⟩ | ⟨haborted, health, found, -, heq⟩
  · rw [heq] at h
    cases List.mem_singleton.1 h
    exact Or.inl ⟨rfl, Or.inl haborted⟩
  · rw [heq] at h
    have henter : .close id ∈ (c.enter p l).2 := by
      rcases List.mem_append.1 h with henter | htold
      · exact henter
      rcases List.mem_append.1 htold with htold | htold
      · exact absurd htold (close_not_mem_answerAll _ _ _)
      · exact absurd htold (close_not_mem_answerAll _ _ _)
    unfold enter at henter
    split at henter
    · cases List.mem_singleton.1 henter
    · rename_i existing rest hlive
      have hfirst : (c.toPeer p).head? = some existing := by rw [hlive]; rfl
      split at henter
      · rename_i hreplaces
        cases List.mem_singleton.1 henter
        exact Or.inr ⟨haborted, existing, hfirst, hreplaces, rfl⟩
      · rename_i hreplaces
        cases List.mem_singleton.1 henter
        exact Or.inl ⟨rfl, Or.inr ⟨haborted, existing, hfirst, by simpa using hreplaces⟩⟩

/-- What a step may tell: answers and events, the closing of a connection by order or when one comes, and
that of all there is to a peer when a dial to it is given up. -/
inductive Tells (c : Connections) (i : Input) : Effect → Prop
  | answer (caller : CallerId) (result : Except Error Connection) : Tells c i (.answer caller result)
  | emit (event : Event) : Tells c i (.emit event)
  | close {id : ConnectionId} (why : Orders id c i ∨ ∃ p l, i = .established p l) :
    Tells c i (.close id)
  | disconnect {p : PeerId} {gone : CallerId → Bool} (pruned : i = .prune gone)
    (awaited : c.pendingPeers.get? p ≠ none) : Tells c i (.disconnect p)

theorem tells_answerAll {e : Effect} {d : Option PendingDial} {r : Except Error Connection}
    (h : e ∈ answerAll d r) : Tells c i e := by
  obtain ⟨w, rfl⟩ := answer_of_mem_answerAll h
  exact .answer w r

theorem tells_step {e : Effect} (h : e ∈ (c.step i).2) : Tells c i e := by
  cases i with
  | established p l =>
    have hclose (id : ConnectionId) : Tells c (.established p l) (.close id) := .close (Or.inr ⟨p, l, rfl⟩)
    change e ∈ (c.established p l).2 at h
    rcases c.established_eq p l with ⟨-, heq⟩ | ⟨-, health, found, -, heq⟩
    · rw [heq] at h
      cases List.mem_singleton.1 h
      exact hclose l.id
    · rw [heq] at h
      rcases List.mem_append.1 h with henter | htold
      · unfold enter at henter
        split at henter
        · cases List.mem_singleton.1 henter
          exact .emit _
        · split at henter
          · cases List.mem_singleton.1 henter
            exact hclose _
          · cases List.mem_singleton.1 henter
            exact hclose l.id
      · rcases List.mem_append.1 htold with htold | htold
        · exact tells_answerAll htold
        · exact tells_answerAll htold
  | close k =>
    cases List.mem_singleton.1 h
    exact .close (Or.inl (Or.inl rfl))
  | ping p k rtt =>
    change e ∈ (c.ping p k rtt).2 at h
    unfold ping at h
    split at h
    · cases h
    rename_i hfirst
    cases rtt with
    | some t => cases h
    | none =>
      dsimp only at h
      split at h
      · rename_i hfailures
        cases List.mem_singleton.1 h
        exact .close (Or.inl (Or.inr ⟨p, rfl, by simpa using hfirst, hfailures⟩))
      · cases h
  | dial peer a caller v =>
    change e ∈ (c.dial peer a caller v).2 at h
    rcases c.dial_cases peer a caller v with
      ⟨r, -, heq⟩ | ⟨q, d, -, -, heq⟩ | ⟨k, d, -, -, heq⟩ | ⟨-, heq⟩
    · rw [heq] at h
      cases List.mem_singleton.1 h
      exact .answer caller r
    · rw [heq] at h
      cases h
    · rw [heq] at h
      cases h
    -- a dial that begins tells nothing, unless the network will not have it
    · have hanswer : ∃ r, e = .answer caller r := by
        rw [heq] at h
        cases v <;> cases peer <;> simp [begin] at h <;> exact ⟨_, h⟩
      obtain ⟨r, rfl⟩ := hanswer
      exact .answer caller r
  | prune gone =>
    obtain ⟨⟨p, d⟩, hd, rfl⟩ := List.mem_map.1 h
    refine .disconnect rfl ?_
    rw [(mem_unawaited.1 hd).1]
    exact Option.some_ne_none d
  | closed p k =>
    change e ∈ (c.closed p k).2 at h
    unfold closed at h
    split at h
    · cases h
    · dsimp only at h
      split at h
      · cases List.mem_singleton.1 h
        exact .emit _
      · cases h
  | dialFailed k peer f =>
    change e ∈ (c.dialFailed k peer f).2 at h
    obtain ⟨error, ⟨heq, -⟩ | ⟨p, d, -, -, -, -, heq⟩⟩ := c.dialFailed_eq k peer f
    · rw [heq] at h
      exact tells_answerAll h
    · rw [heq] at h
      rcases List.mem_append.1 h with htold | htold
      · exact tells_answerAll htold
      · exact tells_answerAll htold

/-- A connection is closed by order, or when one comes. -/
theorem close_cases (h : .close id ∈ (c.step i).2) :
    Orders id c i ∨ ∃ p l, i = .established p l := by
  cases tells_step h with
  | close why => exact why

/-! ## Who comes first -/

/-- A connection is first to a peer after a step if it was before, or it comes, or the one before it is
closed. -/
theorem head?_step (h : ((c.step i).1.toPeer p).head? = some l) :
    (c.toPeer p).head? = some l ∨ i = .established p l ∨ Promotes l.id c i := by
  by_cases hclosed : ∃ gone, i = .closed p gone
  · obtain ⟨gone, rfl⟩ := hclosed
    have hafter : ((c.toPeer p).filter (·.id ≠ gone)).head? = some l := by
      rw [← h]
      show _ = ((c.closed p gone).1.toPeer p).head?
      rw [toPeer_closed, if_pos rfl]
    cases hlive : c.toPeer p with
    | nil =>
      rw [hlive] at hafter
      cases hafter
    | cons first rest =>
      by_cases hfirst : first.id = gone
      · refine Or.inr (Or.inr ⟨p, gone, rfl, ?_, ?_⟩)
        · rw [hlive, List.head?_cons, Option.map_some, hfirst]
        · rw [h, Option.map_some]
      · rw [hlive, List.filter_cons_of_pos (by simpa using hfirst)] at hafter
        exact Or.inl hafter
  · rw [c.toPeer_step p fun gone heq => hclosed ⟨gone, heq⟩] at h
    cases hentry : c.entered? p i with
    | none =>
      rw [hentry] at h
      exact Or.inl h
    | some m =>
      rw [hentry] at h
      dsimp only at h
      rw [head?_merged] at h
      have hcomes : i = .established p m := (entered?_eq_some hentry).1
      split at h
      · exact Or.inr (Or.inl (Option.some.inj h ▸ hcomes))
      · rename_i existing hexisting
        split at h
        · exact Or.inr (Or.inl (Option.some.inj h ▸ hcomes))
        · exact Or.inl (hexisting.trans h)

/-- A connection is behind the first after a step if it was before, or it is closed now. -/
theorem mem_tail_step (h : l ∈ ((c.step i).1.toPeer p).tail) :
    l ∈ (c.toPeer p).tail ∨ .close l.id ∈ (c.step i).2 := by
  by_cases hclosed : ∃ gone, i = .closed p gone
  · obtain ⟨gone, rfl⟩ := hclosed
    change l ∈ ((c.closed p gone).1.toPeer p).tail at h
    rw [toPeer_closed, if_pos rfl] at h
    cases hlive : c.toPeer p with
    | nil =>
      rw [hlive] at h
      cases h
    | cons first rest =>
      rw [hlive] at h
      refine Or.inl ?_
      show l ∈ rest
      by_cases hfirst : first.id = gone
      · rw [List.filter_cons_of_neg (by simpa using hfirst)] at h
        exact (List.mem_filter.1 (List.mem_of_mem_tail h)).1
      · rw [List.filter_cons_of_pos (by simpa using hfirst)] at h
        exact (List.mem_filter.1 h).1
  · rw [c.toPeer_step p fun gone heq => hclosed ⟨gone, heq⟩] at h
    cases hentry : c.entered? p i with
    | none =>
      rw [hentry] at h
      exact Or.inl h
    | some m =>
      rw [hentry] at h
      change l ∈ (c.merged p m).tail at h
      unfold merged at h
      split at h
      · cases h
      · rename_i existing rest hlive
        have hfirst : (c.toPeer p).head? = some existing := by rw [hlive]; rfl
        have hclose := close_mem_step hentry hfirst
        rw [hlive]
        split at h
        · rename_i hreplaces
          rw [if_pos hreplaces] at hclose
          rcases List.mem_cons.1 h with rfl | hrest
          · exact Or.inr hclose
          · exact Or.inl hrest
        · rename_i hreplaces
          rw [if_neg hreplaces] at hclose
          rcases List.mem_append.1 h with hrest | hnew
          · exact Or.inl hrest
          · rw [List.mem_singleton.1 hnew]
            exact Or.inr hclose

/-! ## What the network rules out -/

/-- An id that was given out and whose dial is over stays so. -/
theorem Ledger.Admits.over (hi : n.Admits c i n') (hnamed : id ∈ n.named)
    (hover : n.flying.get? id = none) : id ∈ n'.named ∧ n'.flying.get? id = none := by
  cases hi with
  | begin vacant fresh =>
    refine ⟨List.mem_cons_of_mem _ hnamed, ?_⟩
    refine (Table.get?_insert ..).trans ((if_neg ?_).trans hover)
    rintro rfl
    exact fresh hnamed
  | arrive => exact ⟨List.mem_cons_of_mem _ hnamed, hover⟩
  | fail => exact ⟨List.mem_cons_of_mem _ hnamed, hover⟩
  | arriveDialed =>
    refine ⟨hnamed, (Table.get?_erase ..).trans ?_⟩
    split
    · rfl
    · exact hover
  | failDialed =>
    refine ⟨hnamed, (Table.get?_erase ..).trans ?_⟩
    split
    · rfl
    · exact hover
  | _ => exact ⟨hnamed, hover⟩

/-- Once a connection has come, its id is given out and its dial is over; before, not both. -/
theorem Ledger.Admits.arrived (hi : n.Admits c (.established p l) n') :
    (l.id ∈ n'.named ∧ n'.flying.get? l.id = none) ∧
      ¬ (l.id ∈ n.named ∧ n.flying.get? l.id = none) := by
  cases hi with
  | arrive fresh other =>
    refine ⟨⟨List.mem_cons_self, ?_⟩, fun h => fresh h.1⟩
    cases hflying : n.flying.get? l.id with
    | none => exact hflying
    | some peer => exact absurd (n.flown _ _ hflying) fresh
  | arriveDialed dialed same other =>
    refine ⟨⟨n.flown _ _ dialed, (Table.get?_erase ..).trans (if_pos rfl)⟩, fun h => ?_⟩
    rw [h.2] at dialed
    cases dialed

/-- The dial of a connection in the tables is over. -/
theorem Sound.over (hs : Sound c n) (hl : l ∈ c.toPeer p) :
    l.id ∈ n.named ∧ n.flying.get? l.id = none := by
  have hlive : c.Holds l.id (.live p) := ⟨l, hl, rfl⟩
  refine ⟨hs.placed.named hlive, ?_⟩
  cases hflying : n.flying.get? l.id with
  | none => rfl
  | some peer => exact (hs.placed.flying hlive hflying).elim

/-- What is closed when a connection comes is not first to its peer after that. -/
theorem Sound.not_first (hs : Sound c n) (hi : n.Admits c (.established p l) n')
    (h : .close id ∈ (c.established p l).2) {q : PeerId} {m : LiveConnection}
    (hm : ((c.established p l).1.toPeer q).head? = some m) : m.id ≠ id := by
  -- the id of the connection that comes is not in the tables yet
  have hnew : ∀ {q m}, m ∈ c.toPeer q → m.id ≠ l.id := by
    intro q m hm hid
    have hover := hs.over hm
    rw [hid] at hover
    exact hi.arrived.2 hover
  rcases close_mem_established h with ⟨rfl, haborted | ⟨haborted, existing, hfirst, hkept⟩⟩ |
    ⟨haborted, existing, hfirst, hreplaces, rfl⟩
  · -- nothing is entered
    rcases c.established_eq p l with ⟨-, heq⟩ | ⟨hnot, -⟩
    · rw [heq] at hm
      exact hnew (List.mem_of_head? hm)
    · exact absurd haborted hnot
  · rw [toPeer_established haborted] at hm
    split at hm
    · rw [head?_merged, hfirst] at hm
      dsimp only at hm
      rw [hkept, if_neg Bool.false_ne_true] at hm
      exact Option.some.inj hm ▸ hnew (List.mem_of_head? hfirst)
    · exact hnew (List.mem_of_head? hm)
  · rw [toPeer_established haborted] at hm
    split at hm
    · rw [head?_merged, hfirst] at hm
      dsimp only at hm
      rw [hreplaces, if_pos rfl] at hm
      exact Option.some.inj hm ▸ (hnew (List.mem_of_head? hfirst)).symm
    · rename_i hpq
      intro hid
      have hlive : c.Holds m.id (.live q) := ⟨m, List.mem_of_head? hm, rfl⟩
      have hlive' : c.Holds m.id (.live p) := ⟨existing, List.mem_of_head? hfirst, hid.symm⟩
      exact hpq (Place.live.inj (hs.placed.unique hlive' hlive))

/-! ## The invariant -/

/-- What is being closed, after some effects and for a reason. -/
structure Closing (c : Connections) (n : Ledger) (told : List Effect) (why : ConnectionId → Prop) :
    Prop where
  /-- Every connection but the first is being closed. -/
  spare : ∀ {p : PeerId} {l : LiveConnection}, l ∈ (c.toPeer p).tail → .close l.id ∈ told
  /-- The first is for a reason. -/
  first : ∀ {p : PeerId} {l : LiveConnection}, (c.toPeer p).head? = some l → .close l.id ∈ told →
    why l.id
  /-- Anything else that is being closed has come. -/
  past : ∀ {id : ConnectionId}, .close id ∈ told →
    why id ∨ (id ∈ n.named ∧ n.flying.get? id = none)
  heard : ∀ {id : ConnectionId}, why id → .close id ∈ told

theorem closing_empty (self : PeerId) : Closing (empty self) .blank [] fun _ => False where
  spare h := nomatch h
  first h := nomatch h
  past h := nomatch h
  heard h := h.elim

variable {told : List Effect} {why : ConnectionId → Prop}

theorem Closing.congr {why' : ConnectionId → Prop} (h : Closing c n told why)
    (hwhy : ∀ id, why id ↔ why' id) : Closing c n told why' where
  spare := h.spare
  first hl hclose := (hwhy _).1 (h.first hl hclose)
  past hclose := (h.past hclose).imp_left (hwhy _).1
  heard hid := h.heard ((hwhy _).2 hid)

/-- A connection that comes is being closed only if that was ordered. -/
theorem Closing.why_of_arriving (h : Closing c n told why) (hi : n.Admits c (.established p l) n')
    (hclose : .close l.id ∈ told) : why l.id := by
  rcases h.past hclose with hwhy | hover
  · exact hwhy
  · exact absurd hover hi.arrived.2

theorem Closing.step (h : Closing c n told why) (hs : Sound c n) (hi : n.Admits c i n') :
    Closing (c.step i).1 n' (told ++ (c.step i).2)
      fun id => why id ∨ Orders id c i ∨ Promotes id c i where
  spare {p l} hl := by
    rcases mem_tail_step hl with hold | hnow
    · exact List.mem_append_left _ (h.spare hold)
    · exact List.mem_append_right _ hnow
  first {p l} hl hclose := by
    rcases List.mem_append.1 hclose with htold | hnow
    · rcases head?_step hl with hold | rfl | hpromotes
      · exact Or.inl (h.first hold htold)
      · exact Or.inl (h.why_of_arriving hi htold)
      · exact Or.inr (Or.inr hpromotes)
    · rcases close_cases hnow with horders | ⟨q, m, rfl⟩
      · exact Or.inr (Or.inl horders)
      · exact absurd rfl (hs.not_first hi hnow hl)
  past {id} hclose := by
    rcases List.mem_append.1 hclose with htold | hnow
    · rcases h.past htold with hwhy | ⟨hnamed, hover⟩
      · exact Or.inl (Or.inl hwhy)
      · exact Or.inr (hi.over hnamed hover)
    · rcases close_cases hnow with horders | ⟨q, m, rfl⟩
      · exact Or.inl (Or.inr (Or.inl horders))
      · refine Or.inr ?_
        rcases close_mem_established hnow with ⟨rfl, -⟩ | ⟨-, existing, hfirst, -, rfl⟩
        · exact hi.arrived.1
        · obtain ⟨hnamed, hover⟩ := hs.over (List.mem_of_head? hfirst)
          exact hi.over hnamed hover
  heard {id} hwhy := by
    rcases hwhy with hwhy | horders | ⟨p, gone, rfl, hfirst, hnext⟩
    · exact List.mem_append_left _ (h.heard hwhy)
    · exact List.mem_append_right _ (close_mem_of_orders horders)
    · -- who comes first now was behind the one that is gone
      obtain ⟨l, hl, rfl⟩ := Option.map_eq_some_iff.1 hnext
      obtain ⟨first, hlive, rfl⟩ := Option.map_eq_some_iff.1 hfirst
      obtain ⟨rest, hlive⟩ := List.head?_eq_some_iff.1 hlive
      have hafter : ((c.closed p first.id).1.toPeer p).head? = some l := hl
      rw [toPeer_closed, if_pos rfl, hlive, List.filter_cons_of_neg (by simp)] at hafter
      refine List.mem_append_left _ (h.spare (p := p) ?_)
      rw [hlive]
      exact (List.mem_filter.1 (List.mem_of_head? hafter)).1

/-- What the tables and the network come to in a run, up to some point of it. -/
theorem Closing.run (h : Closing c n told why) (hs : Sound c n) {is js : List Input}
    (his : n.AdmitsAll c (is ++ js)) :
    ∃ n', Sound (c.run is).1 n' ∧ n'.AdmitsAll (c.run is).1 js ∧
      Closing (c.run is).1 n' (told ++ (c.run is).2) fun id =>
        why id ∨ Happens (fun c i => Orders id c i ∨ Promotes id c i) c is := by
  induction is generalizing c n told why with
  | nil =>
    refine ⟨n, hs, his, ?_⟩
    show Closing c n (told ++ []) fun id => why id ∨ False
    simp only [List.append_nil, or_false]
    exact h
  | cons i is ih =>
    cases his with
    | cons first rest =>
      obtain ⟨n', hs', hjs, hrun⟩ := ih (h.step hs first) (hs.step first) rest
      refine ⟨n', hs', hjs, ?_⟩
      rw [List.append_assoc] at hrun
      exact hrun.congr fun id => or_assoc

/-- Whoever is handed a connection by a node is handed one that the node is closing just when its end was
ordered by name, or for want of answers to pings, or when it was redundant and has come first since. All of
that was before: what is handed out in a step is not closed in that step. -/
theorem handed_out_closing_iff (self : PeerId) (is : List Input) (i : Input)
    (h : Ledger.blank.AdmitsAll (empty self) (is ++ [i])) (w : CallerId) (conn : Connection)
    (hanswer : .answer w (.ok conn) ∈ (((empty self).run is).1.step i).2) :
    (.close conn.id ∈ ((empty self).run is).2 ↔
      Happens (fun c i => Orders conn.id c i ∨ Promotes conn.id c i) (empty self) is) ∧
      .close conn.id ∉ (((empty self).run is).1.step i).2 := by
  obtain ⟨n, hs, hnext, hrun⟩ := (closing_empty self).run (sound_empty self) h
  obtain ⟨n', hi⟩ : ∃ n', n.Admits ((empty self).run is).1 i n' := by
    cases hnext with
    | cons first rest => exact ⟨_, first⟩
  simp only [List.nil_append, false_or] at hrun
  have hsomebody : answered (((empty self).run is).1.step i).2 ≠ [] :=
    List.ne_nil_of_mem (mem_answered.2 ⟨_, hanswer⟩)
  -- what is handed out is the first connection to its peer, after the step
  have hfirst : (((empty self).run is).1.step i).1.primary? conn.peer = some conn := by
    rcases answer_cases hanswer with ⟨target, -, hsuits⟩ | ⟨q, d, -, -, hsuits, -⟩
    · exact (hsuits conn rfl).1
    · exact (hsuits conn rfl).1
  obtain ⟨l, hl, hconn⟩ := Option.map_eq_some_iff.1 hfirst
  have hid : l.id = conn.id := by rw [← hconn]
  rw [← hid]
  refine ⟨⟨fun hclose => ?_, fun hwhy => hrun.heard hwhy⟩, fun hclose => ?_⟩
  · rcases head?_step hl with hold | rfl | hpromotes
    · exact hrun.first hold hclose
    · exact hrun.why_of_arriving hi hclose
    · exact absurd hpromotes.answered_eq_nil hsomebody
  · rcases close_cases hclose with horders | ⟨p, m, rfl⟩
    · exact hsomebody horders.answered_eq_nil
    · exact hs.not_first hi hclose hl rfl

/-- A node is told to close a connection, and hands it out before it is gone. -/
theorem handed_out_closing_iff_of_close :
    let self : PeerId := ⟨[0]⟩
    let p : PeerId := ⟨[1]⟩
    let at_ : Address := [.memory 1]
    let is : List Input := [.established p ⟨0, at_, p⟩, .close 0]
    let i : Input := .dial (some p) at_ 5 .busy
    Ledger.blank.AdmitsAll (empty self) (is ++ [i]) ∧
      .answer 5 (.ok ⟨p, 0, at_⟩) ∈ (((empty self).run is).1.step i).2 ∧
      .close 0 ∈ ((empty self).run is).2 ∧ .close 0 ∉ (((empty self).run is).1.step i).2 := by
  intro self p at_ is i
  have h : Ledger.blank.AdmitsAll (empty self) (is ++ [i]) :=
    .cons (.arrive (by decide) (by decide)) <| .cons (.close _) <| .cons (.dial (nofun)) .nil
  have hanswer : .answer 5 (.ok ⟨p, 0, at_⟩) ∈ (((empty self).run is).1.step i).2 :=
    List.mem_singleton_self _
  obtain ⟨hclosing, hnow⟩ := handed_out_closing_iff self is i h 5 ⟨p, 0, at_⟩ hanswer
  exact ⟨h, hanswer, hclosing.2 (Or.inr (Or.inl (Or.inl (Or.inl rfl)))), hnow⟩

end SealedCustody.Connections
