import SealedCustody.Connection.Links
import SealedCustody.Proofs.Connection.Callers
import SealedCustody.Proofs.Connection.Tables

/-!
# Tables and links together

The tables of a node say who waits for a peer; whether anything is under way to that peer is known to
the network alone. Here both are taken together, as an `Endpoint` that meets with inputs (`step`). A dial
that was given up stays in flight until the network reports its end, and so does a link that is being
closed; while there is one, the network begins no other to the peer.

The invariant is `Fit`: what `Sound` says of the tables, with the dials in flight for its ledger, and that
every open link is in the tables or being closed. Every input that the network allows (`Admits`) keeps
it.
-/

namespace SealedCustody

namespace Links

variable {l : Links} {id k : ConnectionId} {p : PeerId}

/-! ## Dials and links -/

/-- Whom a dial in flight is to: a peer, or whoever is at an address. -/
def dialTo? (l : Links) (id : ConnectionId) : Option (Option PeerId) := (l.dialing.get? id).map (·.peer)

theorem isDialing_iff : l.isDialing p = true ↔ ∃ id, l.dialTo? id = some (some p) := by
  unfold isDialing dialTo?
  rw [List.any_eq_true]
  simp only [Table.mem_values, Option.map_eq_some_iff, decide_eq_true_eq]
  constructor
  · rintro ⟨d, ⟨id, hid⟩, hd⟩
    exact ⟨id, d, hid, hd⟩
  · rintro ⟨id, d, hid, hd⟩
    exact ⟨d, ⟨id, hid⟩, hd⟩

theorem dialTo?_begin (l : Links) (own : List Address) (id : ConnectionId) (peer : Option PeerId)
    (addresses : List Address) (k : ConnectionId) :
    (l.begin own id peer addresses).dialTo? k = if id = k then some peer else l.dialTo? k := by
  unfold begin dialTo?
  rw [Table.get?_insert]
  split <;> rfl

theorem dialTo?_erase (l : Links) (id k : ConnectionId) :
    ((l.dialing.erase id).get? k).map (·.peer) = if id = k then none else l.dialTo? k := by
  rw [Table.get?_erase]
  split <;> rfl

/-- The network begins a dial to a peer only when there is neither a link nor a dial to it. -/
theorem verdict_begun {own : List Address} {fresh : ConnectionId} {peer : Option PeerId}
    {addresses : List Address} (h : l.verdict own fresh peer addresses = .begun id) :
    id = fresh ∧ ∀ p, peer = some p → l.isConnected p = false ∧ l.isDialing p = false := by
  unfold verdict at h
  split at h
  · cases h
  · rename_i hfree
    split at h
    · cases h
    · refine ⟨(Connections.Verdict.begun.inj h).symm, ?_⟩
      rintro p rfl
      simpa using hfree

theorem verdict_busy {own : List Address} {fresh : ConnectionId} {addresses : List Address}
    (h : l.verdict own fresh (some p) addresses = .busy) :
    l.isConnected p = true ∨ l.isDialing p = true := by
  unfold verdict at h
  split at h
  · rename_i hbusy
    simpa using hbusy
  · split at h <;> cases h

/-- What is asked of the links changes no dial but to break it off, and no link but to close it. -/
structure Same (l l' : Links) : Prop where
  dials : ∀ id, l'.dialTo? id = l.dialTo? id
  opened : ∀ {id o'}, l'.opened.get? id = some o' → ∃ o, l.opened.get? id = some o ∧
    o'.peer = o.peer ∧ (o.closing = true → o'.closing = true)

theorem Same.refl (l : Links) : Same l l where
  dials _ := rfl
  opened h := ⟨_, h, rfl, fun h => h⟩

theorem Same.trans {l' l'' : Links} (h : Same l l') (h' : Same l' l'') : Same l l'' where
  dials id := (h'.dials id).trans (h.dials id)
  opened {id o''} ho'' := by
    obtain ⟨o', ho', hpeer', hclosing'⟩ := h'.opened ho''
    obtain ⟨o, ho, hpeer, hclosing⟩ := h.opened ho'
    exact ⟨o, ho, hpeer'.trans hpeer, hclosing' ∘ hclosing⟩

theorem opened_closing (l : Links) (id k : ConnectionId) :
    (l.closing id).opened.get? k =
      if id = k then (l.opened.get? k).map ({ · with closing := true }) else l.opened.get? k := by
  unfold closing
  cases ho : l.opened.get? id with
  | none =>
    dsimp only
    split
    · rename_i hk
      rw [← hk, ho]
      rfl
    · rfl
  | some o =>
    refine (Table.get?_insert ..).trans ?_
    split
    · rename_i hk
      rw [← hk, ho]
      rfl
    · rfl

theorem same_closing (l : Links) (id : ConnectionId) : Same l (l.closing id) where
  dials k := by
    unfold closing dialTo?
    split <;> rfl
  opened {k o'} ho' := by
    rw [opened_closing] at ho'
    split at ho'
    · obtain ⟨o, ho, rfl⟩ := Option.map_eq_some_iff.1 ho'
      exact ⟨o, ho, rfl, fun _ => rfl⟩
    · exact ⟨o', ho', rfl, fun h => h⟩

theorem same_closings (l : Links) (ids : List ConnectionId) : Same l (ids.foldl closing l) := by
  induction ids generalizing l with
  | nil => exact .refl l
  | cons id ids ih => exact (l.same_closing id).trans (ih _)

theorem same_aborting (l : Links) (p : PeerId) : Same l (l.aborting p) where
  dials id := by
    unfold aborting dialTo?
    rw [Table.get?_mapValues, Option.map_map]
    rfl
  opened h := ⟨_, h, rfl, fun h => h⟩

end Links

namespace Endpoint

open Connections (Ledger Sound)

/-! ## Carrying out -/

/-- The links do what the tables ask of them, and nothing else changes. -/
theorem carryOut_spec (e : Endpoint) (effects : List Connections.Effect) :
    (e.carryOut effects).1.connections = e.connections ∧ (e.carryOut effects).1.gone = e.gone ∧
      e.links.Same (e.carryOut effects).1.links := by
  induction effects generalizing e with
  | nil => exact ⟨rfl, rfl, .refl _⟩
  | cons effect rest ih =>
    cases effect with
    | answer caller r => exact ih e
    | emit event => exact ih e
    | close id =>
      unfold carryOut
      dsimp only
      split
      · obtain ⟨hconnections, hgone, hsame⟩ := ih { e with links := e.links.closing id }
        exact ⟨hconnections, hgone, (e.links.same_closing id).trans hsame⟩
      · exact ih e
    | disconnect p =>
      obtain ⟨hconnections, hgone, hsame⟩ := ih { e with
        links := (e.links.linksTo p).foldl Links.closing (e.links.aborting p) }
      refine ⟨hconnections, hgone, .trans ?_ hsame⟩
      exact (e.links.same_aborting p).trans (Links.same_closings _ _)

/-- A link that is to be closed is being closed then. -/
theorem closing_of_close {e : Endpoint} {effects : List Connections.Effect} {id : ConnectionId}
    {o' : OpenLink} (h : .close id ∈ effects)
    (ho' : (e.carryOut effects).1.links.opened.get? id = some o') : o'.closing = true := by
  induction effects generalizing e with
  | nil => cases h
  | cons effect rest ih =>
    rcases List.mem_cons.1 h with rfl | hrest
    · unfold carryOut at ho'
      dsimp only at ho'
      split at ho'
      · obtain ⟨o, ho, -, hclosing⟩ := (carryOut_spec _ rest).2.2.opened ho'
        change (e.links.closing id).opened.get? id = some o at ho
        rw [Links.opened_closing, if_pos rfl] at ho
        obtain ⟨first, -, rfl⟩ := Option.map_eq_some_iff.1 ho
        exact hclosing rfl
      · -- it is being closed already
        rename_i hopen
        obtain ⟨o, ho, -, hclosing⟩ := (carryOut_spec _ rest).2.2.opened ho'
        rw [ho] at hopen
        exact hclosing (by simpa using hopen)
    · cases effect with
      | answer caller r => exact ih hrest ho'
      | emit event => exact ih hrest ho'
      | close k =>
        unfold carryOut at ho'
        dsimp only at ho'
        split at ho'
        · exact ih hrest ho'
        · exact ih hrest ho'
      | disconnect p => exact ih hrest ho'

/-! ## Inputs -/

/-- What an endpoint meets with. -/
inductive Input where
  /-- A caller wants a connection. -/
  | dial (own : List Address) (fresh : ConnectionId) (peer : Option PeerId) (a : Address)
      (caller : CallerId)
  /-- A stream needs a connection to a peer. -/
  | dialLearned (own : List Address) (fresh : ConnectionId) (p : PeerId)
  /-- A caller stops listening. -/
  | depart (caller : CallerId)
  /-- The dials that nobody listens for are given up. -/
  | prune
  /-- A connection is to be closed. -/
  | close (id : ConnectionId)
  | established (p : PeerId) (l : LiveConnection) (listening : Option (List Address))
  | closed (p : PeerId) (id : ConnectionId)
  | dialFailed (id : ConnectionId) (f : DialFault)
  | ping (p : PeerId) (id : ConnectionId) (rtt : Option Span)

/-- Takes an input. -/
def step (e : Endpoint) : Input → Endpoint × List Effect
  | .dial own fresh peer a caller => e.dial own fresh peer a caller
  | .dialLearned own fresh p => (e.dialLearned own fresh p).2
  | .depart caller => ({ e with gone := caller :: e.gone }, [])
  | .prune => e.take (e.connections.prune e.gone.contains)
  | .close id => (e.close id).2
  | .established p l listening => e.established p l listening
  | .closed p id => e.closed p id
  | .dialFailed id f => e.dialFailed id f
  | .ping p id rtt => e.ping p id rtt

/-- The endpoint after some inputs. -/
def after (e : Endpoint) (is : List Input) : Endpoint := is.foldl (fun e i => (e.step i).1) e

/-- A caller that stops waiting stops listening, and has the dials given up that nobody listens for. -/
theorem leave_eq (e : Endpoint) (caller : CallerId) :
    (e.leave caller).1 = e.after [.depart caller, .prune] := rfl

/-- The inputs that the network allows, with the ids that it has given out before and after. An id is
given out once; a connection comes from a dial in flight, to its peer if it was to one, or from a peer;
only a dial in flight fails; and a node is not connected to itself. -/
inductive Admits (used : List ConnectionId) (e : Endpoint) : Input → List ConnectionId → Prop where
  | dial {own : List Address} {fresh : ConnectionId} {peer : Option PeerId} {a : Address}
      {caller : CallerId} (new : fresh ∉ used) :
      Admits used e (.dial own fresh peer a caller) (fresh :: used)
  | dialLearned {own : List Address} {fresh : ConnectionId} {p : PeerId} (new : fresh ∉ used) :
      Admits used e (.dialLearned own fresh p) (fresh :: used)
  | depart (caller : CallerId) : Admits used e (.depart caller) used
  | prune : Admits used e .prune used
  | close (id : ConnectionId) : Admits used e (.close id) used
  | arrive {p : PeerId} {l : LiveConnection} {listening : Option (List Address)} (new : l.id ∉ used)
      (other : p ≠ e.connections.self) : Admits used e (.established p l listening) (l.id :: used)
  | arriveDialed {p : PeerId} {l : LiveConnection} {listening : Option (List Address)}
      {peer : Option PeerId} (dialed : e.links.dialTo? l.id = some peer)
      (same : ∀ q, peer = some q → q = p) (other : p ≠ e.connections.self) :
      Admits used e (.established p l listening) used
  | closed (p : PeerId) (id : ConnectionId) : Admits used e (.closed p id) used
  | dialFailed {id : ConnectionId} {f : DialFault} {peer : Option PeerId}
      (dialed : e.links.dialTo? id = some peer) : Admits used e (.dialFailed id f) used
  | ping (p : PeerId) (id : ConnectionId) (rtt : Option Span) : Admits used e (.ping p id rtt) used

/-- The network allows inputs one after another. -/
inductive AdmitsAll : List ConnectionId → Endpoint → List Input → Prop where
  | nil {used : List ConnectionId} {e : Endpoint} : AdmitsAll used e []
  | cons {used used' : List ConnectionId} {e : Endpoint} {i : Input} {is : List Input}
      (first : Admits used e i used') (rest : AdmitsAll used' (e.step i).1 is) :
      AdmitsAll used e (i :: is)

/-! ## The invariant -/

/-- The tables and the links fit together, and with what the network has given out. Some links may be
due to be closed. -/
structure Fit (e : Endpoint) (n : Ledger) (used : List ConnectionId) (due : ConnectionId → Prop) :
    Prop where
  sound : Sound e.connections n
  /-- What the ledger has in flight is. -/
  flying : ∀ {id peer}, n.flying.get? id = some peer → e.links.dialTo? id = some peer
  /-- Any other dial in flight the tables know nothing of. -/
  unknown : ∀ {id peer}, e.links.dialTo? id = some peer →
    n.flying.get? id = some peer ∨ id ∉ n.named
  named : ∀ {id}, id ∈ n.named → id ∈ used
  given : ∀ {id peer}, e.links.dialTo? id = some peer → id ∈ used
  /-- There is one dial to a peer at most. -/
  single : ∀ {id k p}, e.links.dialTo? id = some (some p) → e.links.dialTo? k = some (some p) → id = k
  /-- The dials that callers wait for are in flight. -/
  peers : ∀ {id p}, e.connections.Holds id (.peer p) → e.links.dialTo? id = some (some p)
  bare : ∀ {id}, e.connections.Holds id .bare → e.links.dialTo? id = some none
  /-- An open link is in the tables, or on its way out. -/
  opened : ∀ {id o}, e.links.opened.get? id = some o →
    (∃ l ∈ e.connections.toPeer o.peer, l.id = id) ∨ o.closing = true ∨ due id

variable {e : Endpoint} {n : Ledger} {used used' : List ConnectionId} {i : Input}

theorem fit_empty (self : PeerId) : Fit (empty self) .blank [] fun _ => False where
  sound := Connections.sound_empty self
  flying h := nomatch h
  unknown h := nomatch h
  named h := nomatch h
  given h := nomatch h
  single h := nomatch h
  peers h := by
    obtain ⟨d, hd, -⟩ := h
    cases hd
  bare h := nomatch h
  opened h := nomatch h

/-- The tables take a step, and what they ask is carried out. -/
theorem Fit.take {s : Connections × List Connections.Effect}
    (h : Fit { e with connections := s.1 } n used fun id => .close id ∈ s.2) :
    Fit (e.take s).1 n used fun _ => False := by
  obtain ⟨hconnections, -, hsame⟩ := carryOut_spec { e with connections := s.1 } s.2
  constructor
  case sound => exact hconnections ▸ h.sound
  case flying => exact fun hid => (hsame.dials _).trans (h.flying hid)
  case unknown => exact fun hid => h.unknown ((hsame.dials _).symm.trans hid)
  case named => exact h.named
  case given => exact fun hid => h.given ((hsame.dials _).symm.trans hid)
  case single =>
    exact fun hid hk => h.single ((hsame.dials _).symm.trans hid) ((hsame.dials _).symm.trans hk)
  case peers =>
    intro id p hid
    exact (hsame.dials id).trans (h.peers (hconnections ▸ hid))
  case bare =>
    intro id hid
    exact (hsame.dials id).trans (h.bare (hconnections ▸ hid))
  case opened =>
    intro id o' ho'
    obtain ⟨o, ho, hpeer, hclosing⟩ := hsame.opened ho'
    rcases h.opened ho with hlive | hout | hdue
    · left
      show ∃ l ∈ (carryOut _ s.2).1.connections.toPeer o'.peer, l.id = id
      rw [hconnections, hpeer]
      exact hlive
    · exact Or.inr (Or.inl (hclosing hout))
    · exact Or.inr (Or.inl (closing_of_close hdue ho'))

/-- A dial is given up only with an id that was given out. -/
theorem Fit.aborted_named (h : Fit e n used fun _ => False) {id : ConnectionId}
    (hid : id ∈ e.connections.aborted) : id ∈ used :=
  h.named (h.sound.placed.named (x := .aborted) hid)

/-! ## Dials that begin and end -/

/-- The tables change and the links do not. -/
theorem Fit.of_tables (h : Fit e n used fun _ => False) {c' : Connections}
    {due : ConnectionId → Prop} (hsound : Sound c' n)
    (hpeers : ∀ {id p}, c'.Holds id (.peer p) → e.connections.Holds id (.peer p))
    (hbare : ∀ {id}, c'.Holds id .bare → e.connections.Holds id .bare)
    (hlive : ∀ p, c'.toPeer p = e.connections.toPeer p) :
    Fit { e with connections := c' } n used due where
  sound := hsound
  flying := h.flying
  unknown := h.unknown
  named := h.named
  given := h.given
  single := h.single
  peers hid := h.peers (hpeers hid)
  bare hid := h.bare (hbare hid)
  opened {id o} ho := by
    rcases h.opened ho with hold | hout | hdue
    · left
      show ∃ l ∈ c'.toPeer o.peer, l.id = id
      rw [hlive]
      exact hold
    · exact Or.inr (Or.inl hout)
    · exact hdue.elim

/-- A dial begins that has a new id and is to nobody who is being dialed; the ledger has it in flight, or
knows nothing of it. -/
theorem Fit.begins (h : Fit e n used fun _ => False) {own : List Address} {fresh : ConnectionId}
    {peer : Option PeerId} {addresses : List Address} {c' : Connections} {n' : Ledger}
    {due : ConnectionId → Prop} (new : fresh ∉ used)
    (hfree : ∀ p, peer = some p → e.links.isDialing p = false)
    (hledger : n' = n ∨ n' = n.launch fresh peer) (hsound : Sound c' n')
    (hpeers : ∀ {k p}, c'.Holds k (.peer p) →
      e.connections.Holds k (.peer p) ∨ (k = fresh ∧ peer = some p))
    (hbare : ∀ {k}, c'.Holds k .bare → e.connections.Holds k .bare ∨ (k = fresh ∧ peer = none))
    (hlive : ∀ p, c'.toPeer p = e.connections.toPeer p) :
    Fit { e with connections := c', links := e.links.begin own fresh peer addresses } n'
      (fresh :: used) due := by
  have hdials : ∀ k, (e.links.begin own fresh peer addresses).dialTo? k =
      if fresh = k then some peer else e.links.dialTo? k :=
    e.links.dialTo?_begin own fresh peer addresses
  have hnew : (e.links.begin own fresh peer addresses).dialTo? fresh = some peer := by
    rw [hdials, if_pos rfl]
  have hkept : ∀ {k q}, e.links.dialTo? k = some q →
      (e.links.begin own fresh peer addresses).dialTo? k = some q := by
    intro k q hk
    have hne : fresh ≠ k := fun heq => new (heq ▸ h.given hk)
    rw [hdials, if_neg hne, hk]
  -- a dial in flight is the new one, or was in flight before and has another id
  have hcases : ∀ {k q}, (e.links.begin own fresh peer addresses).dialTo? k = some q →
      (k = fresh ∧ q = peer) ∨ (k ≠ fresh ∧ e.links.dialTo? k = some q) := by
    intro k q hk
    rw [hdials] at hk
    split at hk
    · rename_i hfresh
      exact Or.inl ⟨hfresh.symm, (Option.some.inj hk).symm⟩
    · rename_i hne
      exact Or.inr ⟨Ne.symm hne, hk⟩
  -- nobody dials whom the new dial is to
  have hapart : ∀ {k p}, e.links.dialTo? k = some (some p) → peer ≠ some p := by
    intro k p hk hpeer
    have hdialing := Links.isDialing_iff.2 ⟨k, hk⟩
    rw [hfree p hpeer] at hdialing
    cases hdialing
  constructor
  case sound => exact hsound
  case flying =>
    intro k q hk
    rcases hledger with rfl | rfl
    · exact hkept (h.flying hk)
    · rcases Connections.Ledger.launch_flying hk with ⟨rfl, rfl⟩ | ⟨-, hold⟩
      · exact hnew
      · exact hkept (h.flying hold)
  case unknown =>
    intro k q hk
    rcases hledger with rfl | rfl
    · rcases hcases hk with ⟨rfl, -⟩ | ⟨-, hold⟩
      · exact Or.inr fun hmem => new (h.named hmem)
      · exact h.unknown hold
    · rcases hcases hk with ⟨rfl, rfl⟩ | ⟨hne, hold⟩
      · exact Or.inl ((Table.get?_insert ..).trans (if_pos rfl))
      · rcases h.unknown hold with hflying | hmem
        · exact Or.inl ((Table.get?_insert ..).trans ((if_neg hne.symm).trans hflying))
        · refine Or.inr fun hnamed => ?_
          rcases List.mem_cons.1 hnamed with heq | hold
          · exact hne heq
          · exact hmem hold
  case named =>
    intro k hk
    rcases hledger with rfl | rfl
    · exact List.mem_cons_of_mem _ (h.named hk)
    · rcases List.mem_cons.1 hk with rfl | hold
      · exact List.mem_cons_self
      · exact List.mem_cons_of_mem _ (h.named hold)
  case given =>
    intro k q hk
    rcases hcases hk with ⟨rfl, -⟩ | ⟨-, hold⟩
    · exact List.mem_cons_self
    · exact List.mem_cons_of_mem _ (h.given hold)
  case single =>
    intro k k' p hk hk'
    rcases hcases hk with ⟨rfl, hp⟩ | ⟨-, hold⟩ <;> rcases hcases hk' with ⟨rfl, hp'⟩ | ⟨-, hold'⟩
    · rfl
    · exact absurd hp.symm (hapart hold')
    · exact absurd hp'.symm (hapart hold)
    · exact h.single hold hold'
  case peers =>
    intro k p hk
    rcases hpeers hk with hold | ⟨rfl, rfl⟩
    · exact hkept (h.peers hold)
    · exact hnew
  case bare =>
    intro k hk
    rcases hbare hk with hold | ⟨rfl, rfl⟩
    · exact hkept (h.bare hold)
    · exact hnew
  case opened =>
    intro id o ho
    rcases h.opened ho with hold | hout | hdue
    · left
      show ∃ l ∈ c'.toPeer o.peer, l.id = id
      rw [hlive]
      exact hold
    · exact Or.inr (Or.inl hout)
    · exact hdue.elim

/-- The ledger of a dial or connection that ends or comes: its id is no longer in flight, and nothing else
changes. -/
structure Ends (n n' : Ledger) (id : ConnectionId) : Prop where
  landed : n'.flying.get? id = none
  rest : ∀ {k}, k ≠ id → n'.flying.get? k = n.flying.get? k ∧ (k ∈ n'.named → k ∈ n.named)

theorem ends_land (n : Ledger) (id : ConnectionId) : Ends n (n.land id) id where
  landed := (Table.get?_erase ..).trans (if_pos rfl)
  rest hk := ⟨(Table.get?_erase ..).trans (if_neg hk.symm), fun h => h⟩

theorem ends_name {id : ConnectionId} (fresh : id ∉ n.named) : Ends n (n.name id) id where
  landed := by
    cases hflying : n.flying.get? id with
    | none => exact hflying
    | some peer => exact absurd (n.flown _ _ hflying) fresh
  rest hk := ⟨rfl, fun h => (List.mem_cons.1 h).resolve_left hk⟩

/-- A dial that is in flight ends, or a connection comes that nobody here has dialed. -/
theorem Fit.ends (h : Fit e n used fun _ => False) {id : ConnectionId} {c' : Connections}
    {links' : Links} {n' : Ledger} {due : ConnectionId → Prop} (hends : Ends n n' id)
    (hused : ∀ k, k ∈ used ∨ k = id → k ∈ used')
    (hdials : ∀ k, links'.dialTo? k = if id = k then none else e.links.dialTo? k)
    (hsound : Sound c' n')
    (hpeers : ∀ {k p}, c'.Holds k (.peer p) → k ≠ id ∧ e.connections.Holds k (.peer p))
    (hbare : ∀ {k}, c'.Holds k .bare → k ≠ id ∧ e.connections.Holds k .bare)
    (hopened : ∀ {k o}, links'.opened.get? k = some o →
      (∃ l ∈ c'.toPeer o.peer, l.id = k) ∨ o.closing = true ∨ due k) :
    Fit { e with connections := c', links := links' } n' used' due := by
  have hkept : ∀ {k q}, k ≠ id → e.links.dialTo? k = some q → links'.dialTo? k = some q := by
    intro k q hne hk
    rw [hdials, if_neg hne.symm, hk]
  have hcases : ∀ {k q}, links'.dialTo? k = some q → k ≠ id ∧ e.links.dialTo? k = some q := by
    intro k q hk
    rw [hdials] at hk
    split at hk
    · cases hk
    · rename_i hne
      exact ⟨Ne.symm hne, hk⟩
  constructor
  case sound => exact hsound
  case flying =>
    intro k q hk
    have hne : k ≠ id := by
      rintro rfl
      rw [hends.landed] at hk
      cases hk
    rw [(hends.rest hne).1] at hk
    exact hkept hne (h.flying hk)
  case unknown =>
    intro k q hk
    obtain ⟨hne, hold⟩ := hcases hk
    rcases h.unknown hold with hflying | hmem
    · exact Or.inl ((hends.rest hne).1.trans hflying)
    · exact Or.inr fun hnamed => hmem ((hends.rest hne).2 hnamed)
  case named =>
    intro k hk
    by_cases hid : k = id
    · exact hused k (Or.inr hid)
    · exact hused k (Or.inl (h.named ((hends.rest hid).2 hk)))
  case given => exact fun hk => hused _ (Or.inl (h.given (hcases hk).2))
  case single => exact fun hk hk' => h.single (hcases hk).2 (hcases hk').2
  case peers =>
    intro k p hk
    obtain ⟨hne, hold⟩ := hpeers hk
    exact hkept hne (h.peers hold)
  case bare =>
    intro k hk
    obtain ⟨hne, hold⟩ := hbare hk
    exact hkept hne (h.bare hold)
  case opened => exact hopened

/-! ## Every step -/

theorem Fit.mono (h : Fit e n used fun _ => False) (hused : ∀ id ∈ used, id ∈ used') :
    Fit e n used' fun _ => False :=
  { h with named := fun hid => hused _ (h.named hid), given := fun hid => hused _ (h.given hid) }

/-- A dial begins where none has to do with the peer, or else the links stay as they are. -/
theorem dial_eq (e : Endpoint) (own : List Address) (fresh : ConnectionId) (peer : Option PeerId)
    (a : Address) (caller : CallerId) :
    (e.connections.enlist peer a caller = .vacant ∧
      e.links.verdict own fresh peer [a] = .begun fresh ∧
      (e.dial own fresh peer a caller).1 = ({ e with links := e.links.begin own fresh peer [a] }.take
        (e.connections.begin peer a caller (.begun fresh))).1) ∨
    ((∀ id, e.links.verdict own fresh peer [a] = .begun id →
        e.connections.enlist peer a caller ≠ .vacant) ∧
      (e.dial own fresh peer a caller).1 =
        (e.take (e.connections.dial peer a caller (e.links.verdict own fresh peer [a]))).1) := by
  unfold dial
  dsimp only
  split
  · rename_i id hvacant hbegun
    obtain rfl := (Links.verdict_begun hbegun).1
    exact Or.inl ⟨hvacant, hbegun, by rw [hbegun]⟩
  · rename_i hnot
    exact Or.inr ⟨fun id hbegun hvacant => hnot id hvacant hbegun, rfl⟩

theorem holds_begin_peer {c : Connections} {peer : Option PeerId} {a : Address} {caller : CallerId}
    {fresh k : ConnectionId} {p : PeerId}
    (h : (c.begin peer a caller (.begun fresh)).1.Holds k (.peer p)) :
    c.Holds k (.peer p) ∨ (k = fresh ∧ peer = some p) := by
  cases peer with
  | none => exact Or.inl h
  | some q =>
    rcases Connections.holds_insert_peer h with hold | ⟨hk, hplace⟩
    · exact Or.inl hold
    · exact Or.inr ⟨(Option.some.inj hk).symm,
        congrArg some (Connections.Place.peer.inj hplace).symm⟩

theorem holds_begin_bare {c : Connections} {peer : Option PeerId} {a : Address} {caller : CallerId}
    {fresh k : ConnectionId} (h : (c.begin peer a caller (.begun fresh)).1.Holds k .bare) :
    c.Holds k .bare ∨ (k = fresh ∧ peer = none) := by
  cases peer with
  | some q => exact Or.inl h
  | none =>
    have hk : ((c.pendingDials.insert fresh ⟨a, some fresh, [caller]⟩).get? k).isSome := h
    rw [Table.get?_insert] at hk
    split at hk
    · rename_i hfresh
      exact Or.inr ⟨hfresh.symm, rfl⟩
    · exact Or.inl hk

/-- A dial that does not begin leaves the ids where they are. -/
theorem holds_dial {c : Connections} {peer : Option PeerId} {a : Address} {caller : CallerId}
    {v : Connections.Verdict} (hidle : ∀ id, v = .begun id → c.enlist peer a caller ≠ .vacant)
    {k : ConnectionId} {x : Connections.Place} (h : (c.dial peer a caller v).1.Holds k x) :
    c.Holds k x := by
  rcases c.dial_cases peer a caller v with
    ⟨r, -, heq⟩ | ⟨p, d, -, hd, heq⟩ | ⟨id, d, -, hd, heq⟩ | ⟨hvacant, heq⟩
  · rw [heq] at h
    exact h
  · rw [heq] at h
    exact (Connections.fewer_joined_peer hd caller).holds h
  · rw [heq] at h
    exact (Connections.fewer_joined_bare hd caller).holds h
  · rw [heq] at h
    cases v with
    | begun id => exact absurd hvacant (hidle id rfl)
    | rejected f => exact h
    | busy =>
      cases peer with
      | none => exact h
      | some p =>
        rcases Connections.holds_insert_peer h with hold | ⟨hk, -⟩
        · exact hold
        · cases hk

theorem Fit.dial (h : Fit e n used fun _ => False) {own : List Address} {fresh : ConnectionId}
    {peer : Option PeerId} {a : Address} {caller : CallerId} (new : fresh ∉ used) :
    ∃ n', Fit (e.dial own fresh peer a caller).1 n' (fresh :: used) fun _ => False := by
  have hfresh : fresh ∉ n.named := fun hmem => new (h.named hmem)
  rcases e.dial_eq own fresh peer a caller with ⟨hvacant, hbegun, heq⟩ | ⟨hidle, heq⟩
  · rw [heq]
    refine ⟨n.launch fresh peer, Fit.take ?_⟩
    refine h.begins new (fun p hp => ((Links.verdict_begun hbegun).2 p hp).2) (Or.inr rfl)
      (h.sound.begin hvacant hfresh) holds_begin_peer holds_begin_bare fun p => ?_
    cases peer <;> rfl
  · rw [heq]
    refine ⟨n, Fit.take ((h.mono fun _ => List.mem_cons_of_mem _).of_tables ?_ (holds_dial hidle)
      (holds_dial hidle) fun p => Connections.toPeer_congr (e.connections.dial_live peer a caller _))⟩
    exact h.sound.dial hidle

theorem Fit.dialLearned (h : Fit e n used fun _ => False) {own : List Address}
    {fresh : ConnectionId} {p : PeerId} (new : fresh ∉ used) :
    Fit (e.dialLearned own fresh p).2.1 n (fresh :: used) fun _ => False := by
  unfold Endpoint.dialLearned
  dsimp only
  split
  · rename_i id hbegun
    obtain ⟨rfl, hfree⟩ := Links.verdict_begun hbegun
    exact h.begins new (fun q hq => (hfree q hq).2) (Or.inl rfl) h.sound Or.inl Or.inl fun _ => rfl
  · exact h.mono fun _ => List.mem_cons_of_mem _
  · exact h.mono fun _ => List.mem_cons_of_mem _

theorem Fit.prune (h : Fit e n used fun _ => False) (gone : CallerId → Bool) :
    Fit (e.take (e.connections.prune gone)).1 n used fun _ => False := by
  -- who is still waited for is noted as before
  have hheld : ∀ {k x}, x ≠ .aborted → (e.connections.prune gone).1.Holds k x →
      e.connections.Holds k x := by
    intro k x hx hk
    obtain ⟨hun, hkept⟩ := h.sound.placed.holds_prune hk
    exact hkept fun hunawaited => hx (hun hunawaited)
  exact Fit.take (h.of_tables (h.sound.prune gone) (hheld nofun) (hheld nofun) fun _ => rfl)

theorem Fit.close (h : Fit e n used fun _ => False) (id : ConnectionId) :
    Fit (e.close id).2.1 n used fun _ => False := by
  obtain ⟨closures, heq⟩ := Connections.close_eq e.connections id
  have hsound : Sound (e.connections.close id).1 n := h.sound.step (.close id)
  refine Fit.take (h.of_tables hsound ?_ ?_ ?_)
  · rw [heq]
    exact fun hk => hk
  · rw [heq]
    exact fun hk => hk
  · rw [heq]
    exact fun _ => rfl

theorem Fit.ping (h : Fit e n used fun _ => False) (p : PeerId) (id : ConnectionId)
    (rtt : Option Span) : Fit (e.ping p id rtt).1 n used fun _ => False := by
  obtain ⟨closures, health, heq⟩ := Connections.ping_eq e.connections p id rtt
  have hsound : Sound (e.connections.ping p id rtt).1 n := h.sound.step (.ping p id rtt)
  refine Fit.take (h.of_tables hsound ?_ ?_ ?_)
  · rw [heq]
    exact fun hk => hk
  · rw [heq]
    exact fun hk => hk
  · rw [heq]
    exact fun _ => rfl

theorem Fit.closed (h : Fit e n used fun _ => False) (p : PeerId) (id : ConnectionId) :
    Fit (e.closed p id).1 n used fun _ => False := by
  have hfewer := Connections.fewer_closed e.connections p id
  have hsound : Sound (e.connections.closed p id).1 n := h.sound.step (.closed p id)
  refine Fit.take { h with
    sound := hsound
    peers := fun hk => h.peers (hfewer.holds hk)
    bare := fun hk => h.bare (hfewer.holds hk)
    opened := fun {k o} ho => ?_ }
  -- the other links are where they were
  change (e.links.opened.erase id).get? k = some o at ho
  rw [Table.get?_erase] at ho
  split at ho
  · cases ho
  rename_i hne
  rcases h.opened ho with ⟨l, hl, rfl⟩ | hout | hdue
  · refine Or.inl ⟨l, ?_, rfl⟩
    show l ∈ (e.connections.closed p id).1.toPeer o.peer
    rw [Connections.toPeer_closed]
    split
    · exact List.mem_filter.2 ⟨hl, by simpa using Ne.symm hne⟩
    · exact hl
  · exact Or.inr (Or.inl hout)
  · exact hdue.elim

/-- What the ledger makes of a connection that comes. -/
theorem Fit.exists_arrival (h : Fit e n used fun _ => False) {p : PeerId} {l : LiveConnection}
    {listening : Option (List Address)} (hi : Admits used e (.established p l listening) used') :
    ∃ n', n.Admits e.connections (.established p l) n' ∧ Ends n n' l.id ∧
      (∀ k, k ∈ used ∨ k = l.id → k ∈ used') ∧ p ≠ e.connections.self ∧
      ∀ q, e.links.dialTo? l.id = some (some q) → q = p := by
  cases hi with
  | arrive new other =>
    have hfresh : l.id ∉ n.named := fun hmem => new (h.named hmem)
    refine ⟨_, .arrive hfresh other, ends_name hfresh, ?_, other, fun q hq => absurd (h.given hq) new⟩
    rintro k (hk | rfl)
    · exact List.mem_cons_of_mem _ hk
    · exact List.mem_cons_self
  | arriveDialed dialed same other =>
    have hused : ∀ k, k ∈ used ∨ k = l.id → k ∈ used := by
      rintro k (hk | rfl)
      · exact hk
      · exact h.given dialed
    have hpeer : ∀ q, e.links.dialTo? l.id = some (some q) → q = p := fun q hq =>
      same q (Option.some.inj (dialed.symm.trans hq))
    rcases h.unknown dialed with hflying | hfresh
    · exact ⟨_, .arriveDialed hflying same other, ends_land n l.id, hused, other, hpeer⟩
    · exact ⟨_, .arrive hfresh other, ends_name hfresh, hused, other, hpeer⟩

theorem dialTo?_opening (l : Links) (id : ConnectionId) (p : PeerId)
    (listening : Option (List Address)) (k : ConnectionId) :
    (l.opening id p listening).dialTo? k = if id = k then none else l.dialTo? k :=
  l.dialTo?_erase id k

/-- A dial that someone waits for comes to the one it is to, and the wait is over. -/
theorem Fit.holds_established (h : Fit e n used fun _ => False) {p : PeerId} {l : LiveConnection}
    (hpeer : ∀ q, e.links.dialTo? l.id = some (some q) → q = p) {k : ConnectionId}
    {x : Connections.Place} (hx : x = .bare ∨ ∃ q, x = .peer q)
    (hk : (e.connections.established p l).1.Holds k x) : k ≠ l.id ∧ e.connections.Holds k x := by
  rcases e.connections.established_eq p l with ⟨haborted, heq⟩ | ⟨-, health, found, -, heq⟩
  · rw [heq] at hk
    have hold : e.connections.Holds k x := (Connections.fewer_aborted e.connections l.id).holds hk
    refine ⟨?_, hold⟩
    -- an id that counts as given up is not waited for
    rintro rfl
    have hplace := h.sound.placed.eq_aborted haborted hold
    rcases hx with rfl | ⟨q, rfl⟩ <;> cases hplace
  · rw [heq] at hk
    rcases Connections.holds_entered hk with ⟨-, rfl⟩ | ⟨hold, hbare, hother⟩
    · rcases hx with hx | ⟨q, hx⟩ <;> cases hx
    · refine ⟨?_, hold⟩
      rintro rfl
      rcases hx with rfl | ⟨q, rfl⟩
      · exact hbare rfl rfl
      · exact hother (congrArg _ (hpeer q (h.peers hold)))

theorem Fit.established (h : Fit e n used fun _ => False) {p : PeerId} {l : LiveConnection}
    {listening : Option (List Address)} (hi : Admits used e (.established p l listening) used') :
    ∃ n', Fit (e.established p l listening).1 n' used' fun _ => False := by
  obtain ⟨n', hadmits, hends, hused, -, hpeer⟩ := h.exists_arrival hi
  have hsound : Sound (e.connections.established p l).1 n' := h.sound.step hadmits
  refine ⟨n', Fit.take (h.ends hends hused (dialTo?_opening e.links l.id p listening) hsound
    (h.holds_established hpeer (Or.inr ⟨_, rfl⟩)) (h.holds_established hpeer (Or.inl rfl)) ?_)⟩
  intro k o ho
  change (e.links.opened.insert l.id ⟨p, false⟩).get? k = some o at ho
  rw [Table.get?_insert] at ho
  rcases e.connections.established_eq p l with ⟨haborted, heq⟩ | ⟨haborted, -⟩
  · -- nothing is entered, and the new link is closed at once
    rw [heq]
    split at ho
    · rename_i hk
      exact Or.inr (Or.inr (hk ▸ List.mem_singleton_self _))
    · rcases h.opened ho with hold | hout | hdue
      · exact Or.inl hold
      · exact Or.inr (Or.inl hout)
      · exact hdue.elim
  · rw [Connections.toPeer_established haborted]
    have hentered : ∀ m, m = l ∨ m ∈ e.connections.toPeer p → m ∈ e.connections.merged p l := by
      intro m hm
      exact (e.connections.merged_perm p l).symm.subset (List.mem_cons.2 hm)
    split at ho
    · rename_i hk
      obtain rfl := Option.some.inj ho
      exact Or.inl ⟨l, by rw [if_pos rfl]; exact hentered l (Or.inl rfl), hk⟩
    · rcases h.opened ho with ⟨m, hm, hid⟩ | hout | hdue
      · refine Or.inl ⟨m, ?_, hid⟩
        split
        · rename_i hp
          exact hentered m (Or.inr (hp ▸ hm))
        · exact hm
      · exact Or.inr (Or.inl hout)
      · exact hdue.elim

/-- What the ledger makes of a dial that fails. -/
theorem Fit.exists_failure (h : Fit e n used fun _ => False) {id : ConnectionId}
    {peer : Option PeerId} (dialed : e.links.dialTo? id = some peer) (f : DialFault) :
    ∃ n', n.Admits e.connections (.dialFailed id peer f) n' ∧ Ends n n' id := by
  rcases h.unknown dialed with hflying | hfresh
  · exact ⟨_, .failDialed hflying, ends_land n id⟩
  · exact ⟨_, .fail hfresh, ends_name hfresh⟩

/-- Nobody waits for a peer that there is a connection to. -/
theorem Fit.not_contains (h : Fit e n used fun _ => False) {p : PeerId} {d : PendingDial}
    (hd : e.connections.pendingPeers.get? p = some d) : e.connections.live.contains p = false := by
  rw [Table.contains_eq_isSome]
  cases hlive : e.connections.live.get? p with
  | none => rfl
  | some ls =>
    have hne : e.connections.toPeer p ≠ [] := by
      rw [Connections.toPeer, hlive]
      exact (h.sound.lively p ls hlive).1
    rw [h.sound.apart hne] at hd
    cases hd

/-- A dial to a peer fails: whoever waits for the peer is told, and nobody waits for it any more. -/
theorem Fit.told_of_dialFailed (h : Fit e n used fun _ => False) {id : ConnectionId} {p : PeerId}
    (dialed : e.links.dialTo? id = some (some p)) (f : DialFault) :
    (e.connections.dialFailed id (some p) f).1.pendingPeers.get? p = none ∧
      ∀ d, e.connections.pendingPeers.get? p = some d → ∀ w ∈ d.callers,
        .answer w (.error (f.error d.target.text)) ∈ (e.connections.dialFailed id (some p) f).2 := by
  obtain ⟨err, ⟨heq, hnot⟩ | ⟨q, d, hq, hd, -, -, heq⟩⟩ := e.connections.dialFailed_eq id (some p) f
  · have hnone : e.connections.pendingPeers.get? p = none := by
      cases hd : e.connections.pendingPeers.get? p with
      | none => rfl
      | some d =>
        -- the queue is for no other dial, for there is none to the peer
        refine absurd ⟨?_, h.not_contains hd⟩ (hnot p d rfl hd)
        cases hk : d.dial with
        | none => rfl
        | some k => simpa using h.single (h.peers ⟨d, hd, hk⟩) dialed
    refine ⟨?_, fun d hd => ?_⟩
    · rw [heq, Connections.forgetDial_eq]
      exact hnone
    · rw [hnone] at hd
      cases hd
  · obtain rfl := Option.some.inj hq
    rw [heq]
    refine ⟨(Table.get?_erase ..).trans (if_pos rfl), fun d' hd' w hw => ?_⟩
    obtain rfl := Option.some.inj (hd.symm.trans hd')
    exact List.mem_append_right _ (List.mem_map_of_mem hw)

/-- A dial that someone waits for fails, and the wait is over. -/
theorem Fit.holds_dialFailed (h : Fit e n used fun _ => False) {id : ConnectionId}
    {peer : Option PeerId} (dialed : e.links.dialTo? id = some peer) {f : DialFault}
    {k : ConnectionId} {x : Connections.Place} (hx : x = .bare ∨ ∃ q, x = .peer q)
    (hk : (e.connections.dialFailed id peer f).1.Holds k x) : k ≠ id ∧ e.connections.Holds k x := by
  have hold : e.connections.Holds k x := (Connections.fewer_dialFailed _ id peer f).holds hk
  refine ⟨?_, hold⟩
  rintro rfl
  rcases hx with rfl | ⟨q, rfl⟩
  · -- a dial to a bare address is forgotten
    have hsome : ((e.connections.dialFailed k peer f).1.pendingDials.get? k).isSome := hk
    obtain ⟨err, ⟨heq, -⟩ | ⟨p, d, -, -, -, -, heq⟩⟩ := e.connections.dialFailed_eq k peer f
    · rw [heq, Connections.get?_pendingDials_forgetDial, if_pos rfl] at hsome
      cases hsome
    · rw [heq] at hsome
      dsimp only at hsome
      rw [Connections.get?_pendingDials_forgetDial, if_pos rfl] at hsome
      cases hsome
  · -- the dial is to the peer of its queue, and so the queue is let go
    obtain rfl := Option.some.inj (dialed.symm.trans (h.peers hold))
    obtain ⟨d, hd, -⟩ := hk
    rw [(h.told_of_dialFailed dialed f).1] at hd
    cases hd

/-- The tables are told of a failure with the peer that the dial was to. -/
theorem dialFailed_eq {id : ConnectionId} {peer : Option PeerId}
    (dialed : e.links.dialTo? id = some peer) (f : DialFault) : e.dialFailed id f =
      { e with links := e.links.ended id }.take (e.connections.dialFailed id peer f) := by
  obtain ⟨d, hd, rfl⟩ := Option.map_eq_some_iff.1 dialed
  unfold Endpoint.dialFailed
  rw [hd]
  rfl

theorem Fit.dialFailed (h : Fit e n used fun _ => False) {id : ConnectionId} {f : DialFault}
    {peer : Option PeerId} (dialed : e.links.dialTo? id = some peer) :
    ∃ n', Fit (e.dialFailed id f).1 n' used fun _ => False := by
  obtain ⟨n', hadmits, hends⟩ := h.exists_failure dialed f
  have hsound : Sound (e.connections.dialFailed id peer f).1 n' := h.sound.step hadmits
  have hused : ∀ k, k ∈ used ∨ k = id → k ∈ used := by
    rintro k (hk | rfl)
    · exact hk
    · exact h.given dialed
  rw [dialFailed_eq dialed]
  refine ⟨n', Fit.take (h.ends hends hused (e.links.dialTo?_erase id) hsound
    (h.holds_dialFailed dialed (Or.inr ⟨_, rfl⟩)) (h.holds_dialFailed dialed (Or.inl rfl)) ?_)⟩
  intro k o ho
  have hlive : (e.connections.dialFailed id peer f).1.toPeer o.peer = e.connections.toPeer o.peer := by
    refine Connections.toPeer_congr ?_
    obtain ⟨err, ⟨heq, -⟩ | ⟨p, d, -, -, -, -, heq⟩⟩ := e.connections.dialFailed_eq id peer f
    · rw [heq, Connections.forgetDial_eq]
    · rw [heq, Connections.forgetDial_eq]
  rcases h.opened ho with hold | hout | hdue
  · exact Or.inl (hlive ▸ hold)
  · exact Or.inr (Or.inl hout)
  · exact hdue.elim

/-- Every step that the network allows keeps tables and links fitting. -/
theorem Fit.step (h : Fit e n used fun _ => False) (hi : Admits used e i used') :
    ∃ n', Fit (e.step i).1 n' used' fun _ => False := by
  cases hi with
  | dial new => exact h.dial new
  | dialLearned new => exact ⟨n, h.dialLearned new⟩
  | depart caller => exact ⟨n, { h with }⟩
  | prune => exact ⟨n, h.prune _⟩
  | close id => exact ⟨n, h.close id⟩
  | arrive new other => exact h.established (.arrive new other)
  | arriveDialed dialed same other => exact h.established (.arriveDialed dialed same other)
  | closed p id => exact ⟨n, h.closed p id⟩
  | dialFailed dialed => exact h.dialFailed dialed
  | ping p id rtt => exact ⟨n, h.ping p id rtt⟩

/-! ## Runs -/

theorem after_concat (e : Endpoint) (is : List Input) (i : Input) :
    e.after (is ++ [i]) = ((e.after is).step i).1 := List.foldl_concat ..

/-- Tables and links fit together at every point of a run. -/
theorem Fit.reach (h : Fit e n used fun _ => False) {js is : List Input}
    (his : AdmitsAll used e (js ++ is)) :
    ∃ n' used', Fit (e.after js) n' used' (fun _ => False) ∧ AdmitsAll used' (e.after js) is := by
  induction js generalizing e n used with
  | nil => exact ⟨n, used, h, his⟩
  | cons i js ih =>
    cases his with
    | cons first rest =>
      obtain ⟨n', hstep⟩ := h.step first
      exact ih hstep rest

end Endpoint

end SealedCustody
