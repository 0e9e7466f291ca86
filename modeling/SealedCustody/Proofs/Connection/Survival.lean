import SealedCustody.Proofs.Connection.Signals

/-!
# Which connection survives

A node that is told of several connections to a peer keeps all of them in its tables until the network
reports their ends, but it closes all except one. `survivor_exact` says which: of the connections that
were entered since there was none, the leading one is first in the tables and is left alone, and every
other is closed exactly once. Meanwhile anything may happen that has nothing to do with these
connections; what may not is an order to close one of them, a failed ping of the peer, and a report that
a connection to it is closed.

That the leading one is first is `Leads.run`. What is closed is counted along the run: each connection
that is entered has either itself closed or the one that was first until then (`OneLeft.merged`). The
count is kept because no other step closes one of these (`Survives.spares`): the ids of connections are
given out once, and a dial that is given up, which has all closed that there is to its peer, is not to
this peer while there is a connection to it (`unawaited_step`).
-/

namespace SealedCustody.Connections

variable {c : Connections} {p : PeerId} {i : Input} {l : LiveConnection} {id : ConnectionId}

/-! ## What is closed -/

/-- The connections that an effect has closed: one, or all that there are to a peer. -/
def closes (c : Connections) : Effect → List ConnectionId
  | .close id => [id]
  | .disconnect q => (c.toPeer q).map (·.id)
  | _ => []

/-- The connections that the effects of an input have closed. -/
def closedBy (c : Connections) (i : Input) : List ConnectionId :=
  (c.step i).2.flatMap (c.step i).1.closes

/-- The connections that a run has closed, each as often as it has. -/
def closings (c : Connections) : List Input → List ConnectionId
  | [] => []
  | i :: is => c.closedBy i ++ (c.step i).1.closings is

theorem mem_closedBy : id ∈ c.closedBy i ↔ .close id ∈ (c.step i).2 ∨
    ∃ q, .disconnect q ∈ (c.step i).2 ∧ ∃ l ∈ (c.step i).1.toPeer q, l.id = id := by
  unfold closedBy
  rw [List.mem_flatMap]
  constructor
  · rintro ⟨e, he, hid⟩
    cases e with
    | close k => exact Or.inl (List.mem_singleton.1 hid ▸ he)
    | disconnect q => exact Or.inr ⟨q, he, List.mem_map.1 hid⟩
    | _ => cases hid
  · rintro (h | ⟨q, h, hid⟩)
    · exact ⟨_, h, List.mem_singleton_self _⟩
    · exact ⟨_, h, List.mem_map.2 hid⟩

theorem closes_answerAll (d : Option PendingDial) (r : Except Error Connection) :
    (answerAll d r).flatMap c.closes = [] := by
  refine List.flatMap_eq_nil_iff.2 fun e he => ?_
  obtain ⟨w, rfl⟩ := answer_of_mem_answerAll he
  rfl

/-- A connection that is entered has the first one closed if it takes its place, and otherwise itself. -/
theorem closedBy_established (haborted : l.id ∉ c.aborted) :
    c.closedBy (.established p l) = match c.toPeer p with
      | [] => []
      | existing :: _ => [(if c.replaces p existing l then existing else l).id] := by
  have henter (c' : Connections) : (c.established p l).2.flatMap c'.closes =
      (c.enter p l).2.flatMap c'.closes := by
    rcases c.established_eq p l with ⟨hmem, -⟩ | ⟨-, health, found, -, heq⟩
    · exact absurd hmem haborted
    · rw [heq]
      dsimp only
      rw [List.flatMap_append, List.flatMap_append, closes_answerAll, closes_answerAll,
        List.append_nil, List.append_nil]
  show (c.established p l).2.flatMap _ = _
  rw [henter, enter]
  cases c.toPeer p with
  | nil => rfl
  | cons existing rest =>
    dsimp only
    split
    · rfl
    · rfl

/-- A peer is disconnected from only when a dial to it is given up. -/
theorem disconnect_cases {q : PeerId} (h : .disconnect q ∈ (c.step i).2) :
    ∃ gone, i = .prune gone ∧ c.pendingPeers.get? q ≠ none := by
  cases tells_step h with
  | disconnect pruned awaited => exact ⟨_, pruned, awaited⟩

/-- A dial to a peer is awaited only while there is no connection to it: a step keeps it so. -/
theorem unawaited_step (h : c.toPeer p ≠ [] → c.pendingPeers.get? p = none)
    (hafter : (c.step i).1.toPeer p ≠ []) : (c.step i).1.pendingPeers.get? p = none := by
  have hfewer {c' : Connections} (hf : Fewer c c') (hne : c'.toPeer p ≠ []) :
      c'.pendingPeers.get? p = none :=
    hf.pendingPeers_eq_none (h fun hnil => hne (List.sublist_nil.1 (hnil ▸ hf.toPeer_sublist p)))
  cases i with
  | dial peer a caller v =>
    have hbefore : c.toPeer p ≠ [] := by
      rw [← toPeer_congr (c.dial_live peer a caller v)]
      exact hafter
    change (c.dial peer a caller v).1.toPeer p ≠ [] at hafter
    show (c.dial peer a caller v).1.pendingPeers.get? p = none
    rcases c.dial_cases peer a caller v with
      ⟨r, -, heq⟩ | ⟨q, d, -, hd, heq⟩ | ⟨k, d, -, hd, heq⟩ | ⟨hvacant, heq⟩
    · rw [heq]
      exact h hbefore
    · rw [heq] at hafter ⊢
      exact hfewer (fewer_joined_peer hd caller) hafter
    · rw [heq]
      exact h hbefore
    -- a dial begins only to a peer to which there is no connection
    · have hother {q : PeerId} (hq : peer = some q) : q ≠ p := by
        rintro rfl
        subst hq
        exact hbefore (vacant_of_peer hvacant).2.1
      rw [heq]
      cases peer with
      | none => cases v <;> exact h hbefore
      | some q =>
        have hinsert (d : PendingDial) : (c.pendingPeers.insert q d).get? p = none := by
          rw [Table.get?_insert, if_neg (hother rfl)]
          exact h hbefore
        cases v with
        | begun id => exact hinsert _
        | busy => exact hinsert _
        | rejected f => exact h hbefore
  | prune gone => exact stillAwaited_eq_none (h hafter)
  | close id =>
    obtain ⟨closures, heq⟩ := close_eq c id
    change (c.close id).1.toPeer p ≠ [] at hafter
    show (c.close id).1.pendingPeers.get? p = none
    rw [heq] at hafter ⊢
    exact h hafter
  | established q l =>
    change (c.established q l).1.toPeer p ≠ [] at hafter
    show (c.established q l).1.pendingPeers.get? p = none
    rcases c.established_eq q l with ⟨-, heq⟩ | ⟨-, health, found, -, heq⟩
    · rw [heq] at hafter ⊢
      exact h hafter
    · rw [heq] at hafter ⊢
      dsimp only at hafter ⊢
      rw [pendingPeers_entered]
      rw [toPeer_entered] at hafter
      split
      · rfl
      · rename_i hq
        rw [if_neg hq] at hafter
        exact h hafter
  | closed q id => exact hfewer (fewer_closed c q id) hafter
  | dialFailed id peer f => exact hfewer (fewer_dialFailed c id peer f) hafter
  | ping q id rtt =>
    obtain ⟨closures, health, heq⟩ := ping_eq c q id rtt
    change (c.ping q id rtt).1.toPeer p ≠ [] at hafter
    show (c.ping q id rtt).1.pendingPeers.get? p = none
    rw [heq] at hafter ⊢
    exact h hafter

/-! ## What comes -/

/-- The id of the connection that comes. -/
def Input.arrival? : Input → Option ConnectionId
  | .established _ l => some l.id
  | _ => none

/-- The ids of the connections that come in a run. -/
def arrivals (is : List Input) : List ConnectionId := is.filterMap Input.arrival?

theorem arrivals_cons (i : Input) (is : List Input) :
    arrivals (i :: is) = i.arrival?.toList ++ arrivals is := by
  unfold arrivals
  rw [List.filterMap_cons]
  cases i.arrival? <;> rfl

/-- The input orders the end of no connection of some, reports none to a peer closed and no ping of the
peer failed. -/
def Input.Spares (p : PeerId) (ids : List ConnectionId) : Input → Prop
  | .close id => id ∉ ids
  | .closed q _ => q ≠ p
  | .ping q _ rtt => q = p → rtt ≠ none
  | _ => True

/-- A connection is in the tables after a step if it was before, or it comes. -/
theorem mem_toPeer_step (h : l ∈ (c.step i).1.toPeer p) : l ∈ c.toPeer p ∨ i = .established p l := by
  by_cases hclosed : ∃ gone, i = .closed p gone
  · obtain ⟨gone, rfl⟩ := hclosed
    change l ∈ (c.closed p gone).1.toPeer p at h
    rw [toPeer_closed, if_pos rfl] at h
    exact Or.inl (List.mem_filter.1 h).1
  · rw [c.toPeer_step p fun gone heq => hclosed ⟨gone, heq⟩] at h
    cases hentry : c.entered? p i with
    | none =>
      rw [hentry] at h
      exact Or.inl h
    | some m =>
      rw [hentry] at h
      rcases List.mem_cons.1 ((c.merged_perm p m).mem_iff.1 h) with rfl | hold
      · exact Or.inr (entered?_eq_some hentry).1
      · exact Or.inl hold

/-! ## One is left -/

/-- Of some connections the first is not closed, and every other is closed once. -/
structure OneLeft (ls : List LiveConnection) (closed : List ConnectionId) : Prop where
  first : ∀ l, ls.head? = some l → l.id ∉ closed
  others : ∀ l ∈ ls.tail, closed.count l.id = 1

theorem OneLeft.keep {ls : List LiveConnection} {closed more : List ConnectionId}
    (h : OneLeft ls closed) (hmore : ∀ l ∈ ls, l.id ∉ more) : OneLeft ls (closed ++ more) where
  first l hl hmem := by
    rcases List.mem_append.1 hmem with hold | hnew
    · exact h.first l hl hold
    · exact hmore l (List.mem_of_head? hl) hnew
  others l hl := by
    rw [List.count_append, h.others l hl, List.count_eq_zero_of_not_mem (hmore l (List.mem_of_mem_tail hl))]

/-- It stays so when one more is entered, that is none of them and not closed. -/
theorem OneLeft.merged {closed : List ConnectionId} (h : OneLeft (c.toPeer p) closed)
    (haborted : l.id ∉ c.aborted) (hnodup : ((c.toPeer p).map (·.id)).Nodup)
    (hnew : ∀ m ∈ c.toPeer p, m.id ≠ l.id) (hopen : l.id ∉ closed) :
    OneLeft (c.merged p l) (closed ++ c.closedBy (.established p l)) := by
  rw [closedBy_established haborted]
  unfold Connections.merged
  cases hlive : c.toPeer p with
  | nil =>
    rw [List.append_nil]
    exact ⟨fun m hm => Option.some.inj hm ▸ hopen, fun m hm => absurd hm List.not_mem_nil⟩
  | cons existing rest =>
    rw [hlive] at h hnodup hnew
    have hexisting : existing.id ∉ closed := h.first existing rfl
    have hrest : ∀ m ∈ rest, closed.count m.id = 1 := h.others
    have hother : ∀ m ∈ rest, m.id ≠ existing.id := fun m hm heq =>
      (List.nodup_cons.1 hnodup).1 (List.mem_map.2 ⟨m, hm, heq⟩)
    have hnot {k k' : ConnectionId} (hne : k ≠ k') : k ∉ [k'] := fun hmem =>
      hne (List.mem_singleton.1 hmem)
    dsimp only
    split
    · -- the new one takes the place of the first, which is closed now
      refine ⟨fun m hm => ?_, fun m hm => ?_⟩
      · obtain rfl := Option.some.inj hm
        exact List.not_mem_append hopen (hnot (hnew existing List.mem_cons_self).symm)
      · rw [List.count_append]
        rcases List.mem_cons.1 hm with rfl | hm
        · rw [List.count_eq_zero_of_not_mem hexisting, List.count_singleton_self]
        · rw [hrest m hm, List.count_eq_zero_of_not_mem (hnot (hother m hm))]
    · -- the new one is closed
      refine ⟨fun m hm => ?_, fun m hm => ?_⟩
      · obtain rfl := Option.some.inj hm
        exact List.not_mem_append hexisting (hnot (hnew existing List.mem_cons_self))
      · rw [List.count_append]
        rcases List.mem_append.1 hm with hm | hm
        · rw [hrest m hm, List.count_eq_zero_of_not_mem (hnot (hnew m (List.mem_cons_of_mem _ hm)))]
        · rw [List.mem_singleton.1 hm, List.count_eq_zero_of_not_mem hopen, List.count_singleton_self]

/-! ## The invariant -/

/-- Some connections to a peer were entered and some connections closed. The ids in `ahead` are of
connections that are still to come, those in `all` also of those that have come. -/
structure Survives (c : Connections) (p : PeerId) (seen : List LiveConnection)
    (closed all ahead : List ConnectionId) : Prop where
  perm : (c.toPeer p).Perm seen
  nodup : ((c.toPeer p).map (·.id)).Nodup
  left : OneLeft (c.toPeer p) closed
  come : ∀ l ∈ c.toPeer p, l.id ∈ all
  apart : ∀ q ≠ p, ∀ m ∈ c.toPeer q, ∀ l ∈ c.toPeer p, m.id ≠ l.id
  fresh : ∀ q, ∀ m ∈ c.toPeer q, m.id ∉ ahead
  unclosed : ∀ id ∈ ahead, id ∉ closed
  unawaited : c.toPeer p ≠ [] → c.pendingPeers.get? p = none

variable {seen : List LiveConnection} {closed all ahead : List ConnectionId}

/-- A step that enters no connection to the peer closes none of those to it, and none that is still to
come. -/
theorem Survives.spares (h : Survives c p seen closed all (i.arrival?.toList ++ ahead))
    (hi : i.Spares p all) (hall : ∀ id ∈ ahead, id ∈ all)
    (hnodup : (i.arrival?.toList ++ ahead).Nodup) (hentry : c.entered? p i = none)
    (hclose : id ∈ c.closedBy i) : id ∉ ahead ∧ ∀ l ∈ c.toPeer p, l.id ≠ id := by
  -- the connections to other peers are none of these
  have hforeign {q : PeerId} {m : LiveConnection} (hq : q ≠ p) (hm : m ∈ c.toPeer q) :
      m.id ∉ ahead ∧ ∀ l ∈ c.toPeer p, l.id ≠ m.id :=
    ⟨fun hmem => h.fresh q m hm (List.mem_append_right _ hmem), fun l hl => (h.apart q hq m hm l hl).symm⟩
  rcases mem_closedBy.1 hclose with hclose | ⟨q, hclose, hthere⟩
  swap
  · -- all is closed that there is to a peer, and there is nothing to this one
    obtain ⟨gone, rfl, hawaited⟩ := disconnect_cases hclose
    obtain ⟨m, hm, rfl⟩ : ∃ m ∈ c.toPeer q, m.id = id := hthere
    refine hforeign ?_ hm
    rintro rfl
    exact hawaited (h.unawaited (List.ne_nil_of_mem hm))
  rcases close_cases hclose with (rfl | ⟨q, rfl, hfirst, -⟩) | ⟨q, l, rfl⟩
  · exact ⟨fun hmem => hi (hall id hmem), fun l hl heq => hi (heq ▸ h.come l hl)⟩
  · have hq : q ≠ p := fun hq => hi hq rfl
    obtain ⟨m, hm, rfl⟩ := Option.map_eq_some_iff.1 (toPeer_of_primaryOf? hfirst)
    exact hforeign hq (List.mem_of_head? hm)
  · rcases close_mem_established hclose with ⟨rfl, -⟩ | ⟨haborted, existing, hfirst, -, rfl⟩
    · exact ⟨(List.nodup_cons.1 hnodup).1, fun m hm heq => h.fresh p m hm (heq ▸ List.mem_cons_self)⟩
    · have hq : q ≠ p := by
        rintro rfl
        have hentered : c.entered? q (.established q l) = some l := if_pos ⟨rfl, haborted⟩
        cases hentry.symm.trans hentered
      exact hforeign hq (List.mem_of_head? hfirst)

theorem Survives.step (h : Survives c p seen closed all (i.arrival?.toList ++ ahead))
    (hi : i.Spares p all) (hall : ∀ id ∈ i.arrival?.toList ++ ahead, id ∈ all)
    (hnodup : (i.arrival?.toList ++ ahead).Nodup) :
    Survives (c.step i).1 p (seen ++ (c.entered? p i).toList) (closed ++ c.closedBy i) all ahead := by
  have hnot : ∀ id, i ≠ .closed p id := by
    rintro id rfl
    exact hi rfl
  have hstep := c.toPeer_step p hnot
  -- what comes now does not come later
  have hfresh : ∀ q, ∀ m ∈ (c.step i).1.toPeer q, m.id ∉ ahead := by
    intro q m hm
    rcases mem_toPeer_step hm with hold | rfl
    · exact fun hmem => h.fresh q m hold (List.mem_append_right _ hmem)
    · exact (List.nodup_cons.1 hnodup).1
  cases hentry : c.entered? p i with
  | none =>
    rw [hentry] at hstep
    dsimp only at hstep
    have hspares : ∀ id ∈ c.closedBy i, id ∉ ahead ∧ ∀ l ∈ c.toPeer p, l.id ≠ id :=
      fun id hid => h.spares hi (fun k hk => hall k (List.mem_append_right _ hk)) hnodup hentry hid
    refine ⟨?_, ?_, ?_, ?_, ?_, hfresh, ?_, unawaited_step h.unawaited⟩
    · rw [hstep, Option.toList_none, List.append_nil]
      exact h.perm
    · rw [hstep]
      exact h.nodup
    · rw [hstep]
      exact h.left.keep fun l hl hmem => (hspares _ hmem).2 l hl rfl
    · rw [hstep]
      exact h.come
    · intro q hq m hm l hl
      rw [hstep] at hl
      rcases mem_toPeer_step hm with hold | rfl
      · exact h.apart q hq m hold l hl
      · exact fun heq => h.fresh p l hl (heq ▸ List.mem_cons_self)
    · intro id hid hmem
      rcases List.mem_append.1 hmem with hold | hnew
      · exact h.unclosed id (List.mem_append_right _ hid) hold
      · exact (hspares id hnew).1 hid
  | some l =>
    obtain ⟨rfl, haborted⟩ := entered?_eq_some hentry
    rw [hentry] at hstep
    dsimp only at hstep
    have hnew : ∀ q, ∀ m ∈ c.toPeer q, m.id ≠ l.id := fun q m hm heq =>
      h.fresh q m hm (heq ▸ List.mem_cons_self)
    have hopen : l.id ∉ closed := h.unclosed l.id List.mem_cons_self
    have hmerged := c.merged_perm p l
    refine ⟨?_, ?_, ?_, ?_, ?_, hfresh, ?_, unawaited_step h.unawaited⟩
    · rw [hstep, Option.toList_some]
      exact hmerged.trans ((h.perm.cons l).trans (List.perm_append_singleton l seen).symm)
    · rw [hstep, (hmerged.map _).nodup_iff, List.map_cons, List.nodup_cons]
      refine ⟨fun hmem => ?_, h.nodup⟩
      obtain ⟨m, hm, heq⟩ := List.mem_map.1 hmem
      exact hnew p m hm heq
    · rw [hstep]
      exact h.left.merged haborted h.nodup (hnew p) hopen
    · intro m hm
      rw [hstep] at hm
      rcases List.mem_cons.1 (hmerged.mem_iff.1 hm) with rfl | hold
      · exact hall m.id List.mem_cons_self
      · exact h.come m hold
    · intro q hq m hm k hk
      have hold : m ∈ c.toPeer q := (mem_toPeer_step hm).resolve_right fun heq => by
        cases heq
        exact hq rfl
      rw [hstep] at hk
      rcases List.mem_cons.1 (hmerged.mem_iff.1 hk) with rfl | hk
      · exact hnew q m hold
      · exact h.apart q hq m hold k hk
    · intro id hid hmem
      rcases List.mem_append.1 hmem with hold | hnow
      · exact h.unclosed id (List.mem_append_right _ hid) hold
      · -- it is the new one or the first until now, and neither comes later
        rcases mem_closedBy.1 hnow with hnow | ⟨q, hnow, -⟩
        · rcases close_mem_established hnow with ⟨rfl, -⟩ | ⟨-, existing, hfirst, -, rfl⟩
          · exact (List.nodup_cons.1 hnodup).1 hid
          · exact h.fresh p existing (List.mem_of_head? hfirst) (List.mem_append_right _ hid)
        · obtain ⟨gone, hprune, -⟩ := disconnect_cases hnow
          cases hprune

theorem Survives.run {is : List Input} (h : Survives c p seen closed all (arrivals is))
    (his : ∀ i ∈ is, i.Spares p all) (hall : ∀ id ∈ arrivals is, id ∈ all)
    (hnodup : (arrivals is).Nodup) :
    Survives (c.run is).1 p (seen ++ c.entries p is) (closed ++ c.closings is) all [] := by
  induction is generalizing c seen closed with
  | nil =>
    show Survives c p (seen ++ []) (closed ++ []) all []
    rw [List.append_nil, List.append_nil]
    exact h
  | cons i is ih =>
    rw [arrivals_cons] at h hall hnodup
    have hstep := h.step (his i List.mem_cons_self) hall hnodup
    have hrun := ih hstep (fun j hj => his j (List.mem_cons_of_mem i hj))
      (fun id hid => hall id (List.mem_append_right _ hid)) hnodup.of_append_right
    rw [List.append_assoc, List.append_assoc] at hrun
    exact hrun

/-- Of the connections to a peer that are entered since there was none, all are in the tables, each once.
The first in the tables is the earliest that was dialed by the smaller of the two peer ids, or the
earliest if none was; it is not closed, and every other is closed exactly once. So there are as many
connections as were entered, and just one of them is left. The network gives each connection an id of its
own: those that come are told apart from each other and from those that are there. -/
theorem survivor_exact (hstart : c.toPeer p = []) (is : List Input) (hsome : c.entries p is ≠ [])
    (hspares : ∀ i ∈ is, i.Spares p (arrivals is)) (hnodup : (arrivals is).Nodup)
    (hfresh : ∀ q, ∀ m ∈ c.toPeer q, m.id ∉ arrivals is) :
    ∃ first rest, (c.run is).1.toPeer p = first :: rest ∧ (first :: rest).Perm (c.entries p is) ∧
      ((first :: rest).map (·.id)).Nodup ∧
      leading (fun l => l.dialer = preferred c.self p) (c.entries p is) = some first ∧
      first.id ∉ c.closings is ∧ (∀ l ∈ rest, (c.closings is).count l.id = 1) ∧
      (c.run is).1.count p = (c.entries p is).length ∧
      ∃! l, l ∈ c.entries p is ∧ l.id ∉ c.closings is := by
  have hinit : Survives c p [] [] (arrivals is) (arrivals is) := by
    refine ⟨?_, ?_, ⟨?_, ?_⟩, ?_, ?_, hfresh, fun _ _ => List.not_mem_nil, ?_⟩ <;> simp [hstart]
  obtain ⟨hperm, hids, hleft, -⟩ := hinit.run hspares (fun _ hid => hid) hnodup
  have hopen : ∀ id, .closed p id ∉ is := fun id hmem => hspares _ hmem rfl
  have hleads : Leads c p [] [] := ⟨by rw [hstart]; rfl, fun l hl => absurd hl List.not_mem_nil⟩
  have hfirst := (hleads.run hopen).first
  rw [run_self, List.nil_append] at hfirst
  rw [List.nil_append] at hperm hleft
  cases hlive : (c.run is).1.toPeer p with
  | nil =>
    rw [hlive] at hperm
    exact absurd hperm.symm.eq_nil hsome
  | cons first rest =>
    rw [hlive] at hperm hids hleft hfirst
    have hkept : first.id ∉ c.closings is := hleft.first first rfl
    refine ⟨first, rest, rfl, hperm, hids, hfirst.symm, hkept, hleft.others, ?_, first,
      ⟨hperm.mem_iff.1 List.mem_cons_self, hkept⟩, ?_⟩
    · rw [Connections.count, hlive, hperm.length_eq]
    · rintro l ⟨hl, hclosed⟩
      rcases List.mem_cons.1 (hperm.mem_iff.2 hl) with rfl | hrest
      · rfl
      · refine absurd (List.count_pos_iff.1 ?_) hclosed
        rw [hleft.others l hrest]
        exact Nat.one_pos

/-- A node that is told of a connection that the peer dialed and then of two of its own. -/
theorem survivor_exact_of_three :
    let self : PeerId := ⟨[0]⟩
    let p : PeerId := ⟨[1]⟩
    let is : List Input := [.established p ⟨0, [], p⟩, .close 7, .established p ⟨1, [], self⟩,
      .established p ⟨2, [], self⟩]
    ∃ first rest, ((empty self).run is).1.toPeer p = first :: rest ∧
      leading (fun l => l.dialer = preferred self p) ((empty self).entries p is) = some first ∧
      first.id ∉ (empty self).closings is ∧ ((empty self).run is).1.count p = 3 := by
  intro self p is
  have hentries : (empty self).entries p is = [⟨0, [], p⟩, ⟨1, [], self⟩, ⟨2, [], self⟩] := by decide
  have hspares : ∀ i ∈ is, i.Spares p (arrivals is) := by
    simp [is, Input.Spares, arrivals, Input.arrival?]
  have hsome : (empty self).entries p is ≠ [] := by
    rw [hentries]
    exact List.cons_ne_nil _ _
  have hstart : (empty self).toPeer p = [] := rfl
  obtain ⟨first, rest, hlive, -, -, hleads, hopen, -, hcount, -⟩ :=
    survivor_exact hstart is hsome hspares (by decide) fun q m hm => absurd hm List.not_mem_nil
  exact ⟨first, rest, hlive, hleads, hopen, by rw [hcount, hentries]; rfl⟩

end SealedCustody.Connections
