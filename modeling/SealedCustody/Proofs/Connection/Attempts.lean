import SealedCustody.Proofs.Connection.Endpoint

/-!
# What dials wait for

A queue for a peer should have a dial in flight behind it (`Backed`). The network begins none while
another is in flight, or a link is open, that the tables know nothing of any more. A caller who asks for
a peer in that time finds neither a connection nor a dial in the tables, and is told by the network that
something is under way. It is what was given up (`Strands`): when it ends, the caller fails with it, or
goes on to wait for nothing. In every other case a queue for a peer has an attempt behind it, as long as
the network keeps to its rules.
-/

namespace SealedCustody.Endpoint

variable {e : Endpoint} {n : Connections.Ledger} {used used' : List ConnectionId} {i : Input}

/-! ## What a queue waits for -/

/-- A dial to a peer is in flight that was not given up. -/
def Backed (e : Endpoint) (p : PeerId) : Prop :=
  ∃ id, e.links.dialTo? id = some (some p) ∧ id ∉ e.connections.aborted

/-- Every queue for a peer has an attempt behind it. -/
def AllBacked (e : Endpoint) : Prop :=
  ∀ p d, e.connections.pendingPeers.get? p = some d → e.Backed p

/-- What is under way to a peer is on its way out: a dial that was given up, or a link where nothing is
dialed. -/
def Waning (e : Endpoint) (p : PeerId) : Prop :=
  (∃ id ∈ e.connections.aborted, e.links.dialTo? id = some (some p)) ∨
    (e.links.isConnected p = true ∧ e.links.isDialing p = false)

/-- A caller asks for a peer to which there is neither a connection nor a dial in the tables, while what
is under way to it is on its way out. -/
def Strands (e : Endpoint) (i : Input) (p : PeerId) (w : CallerId) : Prop :=
  ∃ own fresh a, i = .dial own fresh (some p) a w ∧
    e.connections.enlist (some p) a w = .vacant ∧ e.Waning p

theorem backed_take {s : Connections × List Connections.Effect} {p : PeerId} :
    (e.take s).1.Backed p ↔ Backed { e with connections := s.1 } p := by
  obtain ⟨hconnections, -, hsame⟩ := carryOut_spec { e with connections := s.1 } s.2
  refine exists_congr fun id => and_congr ?_ ?_
  · exact Eq.congr_left (hsame.dials id)
  · show id ∉ (carryOut _ s.2).1.connections.aborted ↔ _
    rw [hconnections]

theorem allBacked_take {s : Connections × List Connections.Effect} :
    (e.take s).1.AllBacked ↔ AllBacked { e with connections := s.1 } := by
  have hconnections : (e.take s).1.connections = s.1 :=
    (carryOut_spec { e with connections := s.1 } s.2).1
  refine forall₂_congr fun p d => imp_congr ?_ backed_take
  rw [hconnections]

/-- No queue is new, and the attempts behind those that are left stay. -/
theorem AllBacked.keep {e' : Endpoint} (hall : e.AllBacked)
    (hqueues : ∀ {p d}, e'.connections.pendingPeers.get? p = some d →
      (e.connections.pendingPeers.get? p).isSome)
    (hattempts : ∀ {id p d}, e.links.dialTo? id = some (some p) → id ∉ e.connections.aborted →
      e'.connections.pendingPeers.get? p = some d →
      e'.links.dialTo? id = some (some p) ∧ id ∉ e'.connections.aborted) :
    e'.AllBacked := by
  intro p d hd
  obtain ⟨d₀, hd₀⟩ := Option.isSome_iff_exists.1 (hqueues hd)
  obtain ⟨id, hdial, haborted⟩ := hall p d₀ hd₀
  exact ⟨id, hattempts hdial haborted hd⟩

/-- Some queues may be let go, and the dials behind the others stay in flight. -/
theorem AllBacked.of_fewer {c' : Connections} {links' : Links} (hall : e.AllBacked)
    (hfewer : Connections.Fewer e.connections c')
    (hdials : ∀ {id p d}, e.links.dialTo? id = some (some p) → id ∉ e.connections.aborted →
      c'.pendingPeers.get? p = some d → links'.dialTo? id = some (some p)) :
    AllBacked { e with connections := c', links := links' } := by
  apply hall.keep
  · intro p d hd
    obtain ⟨d₀, hd₀, -⟩ := hfewer.peers p d hd
    exact Option.isSome_of_eq_some hd₀
  · intro id p d hdial haborted hd
    refine ⟨hdials hdial haborted hd, ?_⟩
    intro hmem
    exact haborted (hfewer.aborted id hmem)

/-- One queue is new or has changed, and has an attempt behind it. -/
theorem AllBacked.insert {p : PeerId} {d : PendingDial} (hall : e.AllBacked) (hp : e.Backed p) :
    AllBacked { e with connections := { e.connections with
      pendingPeers := e.connections.pendingPeers.insert p d } } := by
  intro q d' hd'
  change (e.connections.pendingPeers.insert p d).get? q = some d' at hd'
  rw [Table.get?_insert] at hd'
  split at hd'
  · rename_i hq
    exact hq ▸ hp
  · exact hall q d' hd'

theorem not_backed_of_waning (h : Fit e n used fun _ => False) {p : PeerId} (hp : e.Waning p) :
    ¬ e.Backed p := by
  rintro ⟨id, hdial, haborted⟩
  rcases hp with ⟨k, hk, hdialk⟩ | ⟨-, hnone⟩
  · exact haborted (h.single hdialk hdial ▸ hk)
  · have hdialing := Links.isDialing_iff.2 ⟨id, hdial⟩
    rw [hnone] at hdialing
    cases hdialing

theorem backed_of_busy {p : PeerId} (hbusy : e.links.isConnected p = true ∨ e.links.isDialing p = true)
    (hp : ¬ e.Waning p) : e.Backed p := by
  have hdialing : e.links.isDialing p = true := by
    by_contra hnone
    rw [Bool.not_eq_true] at hnone
    rcases hbusy with hconnected | hdialing
    · exact hp (Or.inr ⟨hconnected, hnone⟩)
    · rw [hnone] at hdialing
      cases hdialing
  obtain ⟨id, hid⟩ := Links.isDialing_iff.1 hdialing
  exact ⟨id, hid, fun hmem => hp (Or.inl ⟨id, hmem, hid⟩)⟩

theorem verdict_of_waning {p : PeerId} (hp : e.Waning p) (own : List Address) (fresh : ConnectionId)
    (addresses : List Address) : e.links.verdict own fresh (some p) addresses = .busy := by
  have hbusy : (e.links.isConnected p || e.links.isDialing p) = true := by
    rcases hp with ⟨id, -, hid⟩ | ⟨hconnected, -⟩
    · rw [Links.isDialing_iff.2 ⟨id, hid⟩, Bool.or_true]
    · rw [hconnected, Bool.true_or]
  exact if_pos hbusy

theorem AllBacked.begins (hall : e.AllBacked) (h : Fit e n used fun _ => False) {own : List Address}
    {fresh : ConnectionId} {peer : Option PeerId} {addresses : List Address} (new : fresh ∉ used) :
    AllBacked { e with links := e.links.begin own fresh peer addresses } := by
  apply hall.keep
  · intro p d hd
    exact Option.isSome_of_eq_some hd
  · intro id p d hdial haborted _
    refine ⟨?_, haborted⟩
    rw [Links.dialTo?_begin, if_neg]
    · exact hdial
    · rintro rfl
      exact new (h.given hdial)

theorem AllBacked.dial (hall : e.AllBacked) (h : Fit e n used fun _ => False) {own : List Address}
    {fresh : ConnectionId} {peer : Option PeerId} {a : Address} {caller : CallerId}
    (new : fresh ∉ used) (hnot : ∀ p w, ¬ e.Strands (.dial own fresh peer a caller) p w) :
    (e.dial own fresh peer a caller).1.AllBacked := by
  rcases e.dial_eq own fresh peer a caller with ⟨-, -, heq⟩ | ⟨hidle, heq⟩
  · rw [heq, allBacked_take]
    have hkept : AllBacked { e with links := e.links.begin own fresh peer [a] } :=
      hall.begins h new
    cases peer with
    | none => exact hkept
    | some p =>
      apply hkept.insert
      refine ⟨fresh, (e.links.dialTo?_begin ..).trans (if_pos rfl), ?_⟩
      intro hmem
      exact new (h.aborted_named hmem)
  · rw [heq, allBacked_take]
    rcases e.connections.dial_cases peer a caller (e.links.verdict own fresh peer [a]) with
      ⟨r, -, hdial⟩ | ⟨p, d, -, hd, hdial⟩ | ⟨id, d, -, -, hdial⟩ | ⟨hvacant, hdial⟩
    · rw [hdial]
      exact hall
    · rw [hdial]
      exact hall.insert (hall p d hd)
    · rw [hdial]
      exact hall
    · rw [hdial]
      cases hv : e.links.verdict own fresh peer [a] with
      | begun id => exact absurd hvacant (hidle id hv)
      | rejected f => exact hall
      | busy =>
        cases peer with
        | none => exact hall
        | some p =>
          apply hall.insert
          apply backed_of_busy (Links.verdict_busy hv)
          intro hwaning
          exact hnot p caller ⟨own, fresh, a, rfl, hvacant, hwaning⟩

theorem AllBacked.dialLearned (hall : e.AllBacked) (h : Fit e n used fun _ => False)
    {own : List Address} {fresh : ConnectionId} {p : PeerId} (new : fresh ∉ used) :
    (e.dialLearned own fresh p).2.1.AllBacked := by
  unfold Endpoint.dialLearned
  dsimp only
  split
  · rename_i id hbegun
    obtain ⟨rfl, -⟩ := Links.verdict_begun hbegun
    exact hall.begins h new
  · exact hall
  · exact hall

theorem AllBacked.prune (hall : e.AllBacked) (h : Fit e n used fun _ => False)
    (gone : CallerId → Bool) : (e.take (e.connections.prune gone)).1.AllBacked := by
  rw [allBacked_take]
  apply hall.keep
  · intro p d hd
    obtain ⟨d₀, hd₀, -⟩ := Connections.get?_stillAwaited.1 hd
    exact Option.isSome_of_eq_some hd₀
  · intro id p d hdial haborted hd
    refine ⟨hdial, ?_⟩
    intro hmem
    -- only a dial that nobody waits for is given up, and someone waits for the peer
    rcases Connections.mem_aborted_prune.1 hmem with ⟨q, d', hd', hgone, hid⟩ | ⟨d', hd', -⟩ | hold
    · have hq := h.peers ⟨d', hd', hid⟩
      obtain rfl := Option.some.inj (Option.some.inj (hq.symm.trans hdial))
      obtain ⟨d₀, hd₀, hstays, -⟩ := Connections.get?_stillAwaited.1 hd
      obtain rfl := Option.some.inj (hd'.symm.trans hd₀)
      rw [hgone] at hstays
      cases hstays
    · have hbare : e.links.dialTo? id = some none := h.bare (Option.isSome_of_eq_some hd')
      rw [hdial] at hbare
      cases hbare
    · exact haborted hold

theorem AllBacked.established (hall : e.AllBacked) {p : PeerId} {l : LiveConnection}
    {listening : Option (List Address)}
    (hpeer : ∀ q, e.links.dialTo? l.id = some (some q) → q = p) :
    (e.established p l listening).1.AllBacked := by
  have hdials : ∀ {k q}, k ≠ l.id → e.links.dialTo? k = some q →
      (e.links.opening l.id p listening).dialTo? k = some q := by
    intro k q hne hk
    rw [dialTo?_opening, if_neg hne.symm, hk]
  refine allBacked_take.2 ?_
  rcases e.connections.established_eq p l with ⟨hmem, heq⟩ | ⟨-, health, found, -, heq⟩
  · -- the dial that has come was given up
    rw [heq]
    apply hall.of_fewer (Connections.fewer_aborted e.connections l.id)
    intro id q d hdial haborted _
    apply hdials _ hdial
    rintro rfl
    exact haborted hmem
  · rw [heq]
    have hqueue : ∀ {q d}, (e.connections.entered p l health).pendingPeers.get? q = some d →
        q ≠ p ∧ e.connections.pendingPeers.get? q = some d := by
      intro q d hd
      rw [Connections.pendingPeers_entered] at hd
      split at hd
      · cases hd
      · rename_i hne
        exact ⟨Ne.symm hne, hd⟩
    have haborted' : (e.connections.entered p l health).aborted = e.connections.aborted := by
      unfold Connections.entered
      rw [Connections.forgetDial_eq]
    -- the queue for the peer is let go, so a dial behind another queue is not the one that has come
    apply hall.keep
    · intro q d hd
      exact Option.isSome_of_eq_some (hqueue hd).2
    · intro id q d hdial haborted hd
      rw [haborted']
      refine ⟨hdials ?_ hdial, haborted⟩
      rintro rfl
      exact (hqueue hd).1 (hpeer q hdial)

theorem AllBacked.dialFailed (hall : e.AllBacked) (h : Fit e n used fun _ => False)
    {id : ConnectionId} {f : DialFault} {peer : Option PeerId}
    (dialed : e.links.dialTo? id = some peer) : (e.dialFailed id f).1.AllBacked := by
  rw [dialFailed_eq dialed, allBacked_take]
  apply hall.of_fewer (Connections.fewer_dialFailed e.connections id peer f)
  intro k p d hdial _ hd
  refine (e.links.dialTo?_erase id k).trans ((if_neg ?_).trans hdial)
  rintro rfl
  -- nobody waits for the peer of a dial that has failed
  obtain rfl := Option.some.inj (dialed.symm.trans hdial)
  rw [(h.told_of_dialFailed dialed f).1] at hd
  cases hd

/-- Every step that the network allows leaves an attempt behind every queue, unless it strands a
caller. -/
theorem AllBacked.step (hall : e.AllBacked) (h : Fit e n used fun _ => False)
    (hi : Admits used e i used') (hnot : ∀ p w, ¬ e.Strands i p w) : (e.step i).1.AllBacked := by
  cases hi with
  | dial new => exact hall.dial h new hnot
  | dialLearned new => exact hall.dialLearned h new
  | depart caller => exact hall
  | prune => exact hall.prune h _
  | close id =>
    obtain ⟨closures, heq⟩ := Connections.close_eq e.connections id
    refine allBacked_take.2 ?_
    rw [heq]
    exact hall
  | arrive new other =>
    apply hall.established
    intro q hq
    exact absurd (h.given hq) new
  | arriveDialed dialed same other =>
    apply hall.established
    intro q hq
    exact same q (Option.some.inj (dialed.symm.trans hq))
  | closed p id =>
    refine allBacked_take.2 ?_
    apply hall.of_fewer (Connections.fewer_closed e.connections p id)
    intro k q d hdial _ _
    exact hdial
  | dialFailed dialed => exact hall.dialFailed h dialed
  | ping p id rtt =>
    obtain ⟨closures, health, heq⟩ := Connections.ping_eq e.connections p id rtt
    refine allBacked_take.2 ?_
    rw [heq]
    exact hall

/-! ## Runs -/

/-- As long as no caller is stranded, every queue has an attempt behind it. -/
theorem AllBacked.run (hall : e.AllBacked) (h : Fit e n used fun _ => False) {js is : List Input}
    (his : AdmitsAll used e (js ++ is))
    (hnot : ∀ ks i, ks ++ [i] <+: js → ∀ p w, ¬ (e.after ks).Strands i p w) :
    (e.after js).AllBacked := by
  induction js generalizing e n used with
  | nil => exact hall
  | cons i js ih =>
    cases his with
    | cons first rest =>
      obtain ⟨n', hstep⟩ := h.step first
      refine ih (hall.step h first (hnot [] i ?_)) hstep rest fun ks k hks => hnot (i :: ks) k ?_
      · exact ⟨js, rfl⟩
      · exact List.cons_prefix_cons.2 ⟨rfl, hks⟩

/-- What a node is told to answer it answers. -/
theorem answer_carryOut {w : CallerId} {r : Except Error Connection}
    {effects : List Connections.Effect} (h : .answer w r ∈ effects) :
    .answer w r ∈ (e.carryOut effects).2 := by
  induction effects generalizing e with
  | nil => cases h
  | cons effect rest ih =>
    rcases List.mem_cons.1 h with rfl | hrest
    · exact List.mem_cons_self
    · exact List.mem_append_right _ (ih hrest)

/-- A caller waits for a peer and no attempt is under way: it fails with a dial that was given up before
it asked, or waits for links that are being closed. -/
structure Stranded (e : Endpoint) (p : PeerId) (w : CallerId) : Prop where
  waits : ∃ d, e.connections.pendingPeers.get? p = some d ∧ d.callers = [w]
  unbacked : ¬ e.Backed p
  told : ∀ {id}, e.links.dialTo? id = some (some p) → ∀ f, ∃ target,
    .answer w (.error (f.error target)) ∈ (e.dialFailed id f).2
  leaving : ∀ {id o}, e.links.opened.get? id = some o → o.peer = p → o.closing = true

/-- The tables after a caller was stranded, and the links as they were. -/
theorem step_of_strands {p : PeerId} {w : CallerId} (hs : e.Strands i p w) :
    e.connections.toPeer p = [] ∧ ∃ target, (e.step i).1 = { e with connections := { e.connections with
      pendingPeers := e.connections.pendingPeers.insert p ⟨target, none, [w]⟩ } } := by
  obtain ⟨own, fresh, a, rfl, hvacant, hwaning⟩ := hs
  have hbusy := verdict_of_waning hwaning own fresh [a]
  refine ⟨(Connections.vacant_of_peer hvacant).2.1, Connections.targetOf (some p) a, ?_⟩
  show (e.dial own fresh (some p) a w).1 = _
  rcases e.dial_eq own fresh (some p) a w with ⟨-, hbegun, -⟩ | ⟨-, heq⟩
  · rw [hbusy] at hbegun
    cases hbegun
  · rw [heq, hbusy, Connections.dial, hvacant]
    rfl

theorem Fit.stranded (h : Fit e n used fun _ => False) (hi : Admits used e i used') {p : PeerId}
    {w : CallerId} (hs : e.Strands i p w) : (e.step i).1.Stranded p w := by
  have hwaning : e.Waning p := by
    obtain ⟨own, fresh, a, -, -, hwaning⟩ := hs
    exact hwaning
  obtain ⟨n', hfit⟩ := h.step hi
  obtain ⟨hnone, target, hstep⟩ := step_of_strands hs
  rw [hstep] at hfit ⊢
  have hqueue : (e.connections.pendingPeers.insert p ⟨target, none, [w]⟩).get? p =
      some ⟨target, none, [w]⟩ := (Table.get?_insert ..).trans (if_pos rfl)
  constructor
  case waits => exact ⟨_, hqueue, rfl⟩
  case unbacked => exact not_backed_of_waning h hwaning
  case told =>
    intro id hid f
    refine ⟨target.text, ?_⟩
    rw [dialFailed_eq hid]
    exact answer_carryOut ((hfit.told_of_dialFailed hid f).2 _ hqueue w (List.mem_singleton_self w))
  case leaving =>
    rintro id o ho rfl
    rcases h.opened ho with ⟨l, hl, -⟩ | hclosing | hdue
    · rw [hnone] at hl
      cases hl
    · exact hclosing
    · exact hdue.elim

/-- In a run that the network allows, every queue for a peer has a dial in flight behind it that was not
given up, at every point, just when no caller ever asks for a peer while what is under way to it is on
its way out. A caller that does is stranded. -/
theorem attempts_backed_iff (self : PeerId) (is : List Input) (h : AdmitsAll [] (empty self) is) :
    ((∀ js, js <+: is → ((empty self).after js).AllBacked) ↔
      ∀ js i, js ++ [i] <+: is → ∀ p w, ¬ ((empty self).after js).Strands i p w) ∧
    ∀ js i, js ++ [i] <+: is → ∀ p w, ((empty self).after js).Strands i p w →
      ((empty self).after (js ++ [i])).Stranded p w := by
  have hstranded : ∀ js i, js ++ [i] <+: is → ∀ p w, ((empty self).after js).Strands i p w →
      ((empty self).after (js ++ [i])).Stranded p w := by
    rintro js i ⟨rest, rfl⟩ p w hs
    rw [List.append_assoc] at h
    obtain ⟨n, used, hfit, hnext⟩ := (fit_empty self).reach h
    rw [after_concat]
    cases hnext with
    | cons first rest => exact hfit.stranded first hs
  refine ⟨⟨fun hall js i hjs p w hs => ?_, fun hnot js hjs => ?_⟩, hstranded⟩
  · have hend := hstranded js i hjs p w hs
    obtain ⟨d, hd, -⟩ := hend.waits
    exact hend.unbacked (hall _ hjs p d hd)
  · have hnone : (empty self).AllBacked := fun p d hd => nomatch hd
    obtain ⟨rest, rfl⟩ := hjs
    refine hnone.run (fit_empty self) h fun ks i hks => hnot ks i ?_
    exact hks.trans (List.prefix_append js rest)

/-- A dial is given up, and another caller wants the same peer before the network has broken it off. -/
theorem attempts_backed_iff_of_abandoned :
    let self : PeerId := ⟨[0]⟩
    let p : PeerId := ⟨[1]⟩
    let at_ : Address := [.memory 1]
    let js : List Input := [.dial [] 0 (some p) at_ 5, .depart 5, .prune]
    let i : Input := .dial [] 1 (some p) at_ 6
    AdmitsAll [] (empty self) (js ++ [i]) ∧ ((empty self).after js).Strands i p 6 ∧
      ((empty self).after (js ++ [i])).Stranded p 6 ∧
      ¬ ∀ ks, ks <+: js ++ [i] → ((empty self).after ks).AllBacked := by
  intro self p at_ js i
  have h : AdmitsAll [] (empty self) (js ++ [i]) :=
    .cons (.dial (by decide)) <| .cons (.depart 5) <| .cons .prune <| .cons (.dial (by decide)) .nil
  have hs : ((empty self).after js).Strands i p 6 := by
    refine ⟨[], 1, at_, rfl, rfl, Or.inl ⟨0, ?_, rfl⟩⟩
    exact List.mem_cons_self
  obtain ⟨hiff, hstranded⟩ := attempts_backed_iff self (js ++ [i]) h
  refine ⟨h, hs, hstranded js i (List.prefix_refl _) p 6 hs, fun hall => ?_⟩
  exact hiff.1 hall js i (List.prefix_refl _) p 6 hs

end SealedCustody.Endpoint
