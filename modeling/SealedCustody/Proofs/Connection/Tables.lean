import SealedCustody.Proofs.Connection.Run
import Mathlib.Data.Set.Function

/-!
# What the connection tables keep

The tables of a node are changed piecemeal by many steps, and they stay in tune as long as the network
keeps to a few rules. `Ledger` is what the network knows: the ids it has given out, and which of the
dials it was asked for are in flight. `Ledger.Admits` are its rules: an id is given out once; a dial in
flight ends at most once, with a connection under its own id, to the peer it was to if it was to one;
and a node is not connected to itself. How anything is closed, and what is said of pings, is free.

## The invariant

An id that the tables note stands in one place only (`Place`), and in which places an id may stand
while its dial is in flight is fixed by what was dialed (`Place.awaits`). That is the part of
`Sound` which goes round through the tables; the rest of it is about one or two tables at a time.
Each step either leaves an id where it was, or moves it to one place
(`Placed.of_moved`).
-/

namespace SealedCustody.Connections

/-! ## The network -/

/-- What a network knows of the ids it has given out and of the dials that are in flight, each with
the peer it is to if it is to one. -/
structure Ledger where
  named : List ConnectionId
  flying : Table ConnectionId (Option PeerId)
  flown : ∀ id peer, flying.get? id = some peer → id ∈ named

namespace Ledger

/-- Nothing has happened yet. -/
def blank : Ledger := ⟨[], ∅, fun _ _ h => nomatch h⟩

/-- An id was given out. -/
def name (n : Ledger) (id : ConnectionId) : Ledger where
  named := id :: n.named
  flying := n.flying
  flown k peer h := List.mem_cons_of_mem id (n.flown k peer h)

/-- A dial has begun. -/
def launch (n : Ledger) (id : ConnectionId) (peer : Option PeerId) : Ledger where
  named := id :: n.named
  flying := n.flying.insert id peer
  flown k p h := by
    rw [Table.get?_insert] at h
    split at h
    · rename_i hk
      exact hk ▸ List.mem_cons_self
    · exact List.mem_cons_of_mem id (n.flown k p h)

/-- A dial has ended. -/
def land (n : Ledger) (id : ConnectionId) : Ledger where
  named := n.named
  flying := n.flying.erase id
  flown k p h := by
    rw [Table.get?_erase] at h
    split at h
    · cases h
    · exact n.flown k p h

/-- The inputs that the network allows, and what it knows after them. -/
inductive Admits (n : Ledger) (c : Connections) : Input → Ledger → Prop where
  | begin {peer : Option PeerId} {a : Address} {caller : CallerId} {id : ConnectionId}
      (vacant : c.enlist peer a caller = .vacant) (fresh : id ∉ n.named) :
      Admits n c (.dial peer a caller (.begun id)) (n.launch id peer)
  /-- A dial that does not have to begin, or that the network does not begin. -/
  | dial {peer : Option PeerId} {a : Address} {caller : CallerId} {v : Verdict}
      (idle : ∀ id, v = .begun id → c.enlist peer a caller ≠ .vacant) :
      Admits n c (.dial peer a caller v) n
  | prune (gone : CallerId → Bool) : Admits n c (.prune gone) n
  | close (id : ConnectionId) : Admits n c (.close id) n
  | closed (p : PeerId) (id : ConnectionId) : Admits n c (.closed p id) n
  | ping (p : PeerId) (id : ConnectionId) (rtt : Option Span) : Admits n c (.ping p id rtt) n
  /-- A peer has dialed, or the network has on its own. -/
  | arrive {p : PeerId} {l : LiveConnection} (fresh : l.id ∉ n.named) (other : p ≠ c.self) :
      Admits n c (.established p l) (n.name l.id)
  /-- A dial in flight has come to its peer, or to some peer if it was to a bare address. -/
  | arriveDialed {p : PeerId} {l : LiveConnection} {peer : Option PeerId}
      (dialed : n.flying.get? l.id = some peer) (same : ∀ q, peer = some q → q = p)
      (other : p ≠ c.self) :
      Admits n c (.established p l) (n.land l.id)
  /-- A dial that the network began on its own has failed. -/
  | fail {id : ConnectionId} {peer : Option PeerId} {f : DialFault} (fresh : id ∉ n.named) :
      Admits n c (.dialFailed id peer f) (n.name id)
  /-- A dial in flight has failed. -/
  | failDialed {id : ConnectionId} {peer dialed : Option PeerId} {f : DialFault}
      (flying : n.flying.get? id = some dialed) :
      Admits n c (.dialFailed id peer f) (n.land id)

/-- The network allows inputs one after another. -/
inductive AdmitsAll : Ledger → Connections → List Input → Prop where
  | nil {n : Ledger} {c : Connections} : AdmitsAll n c []
  | cons {n n' : Ledger} {c : Connections} {i : Input} {is : List Input} (first : n.Admits c i n')
      (rest : AdmitsAll n' (c.step i).1 is) : AdmitsAll n c (i :: is)

end Ledger

/-! ## Where an id stands -/

/-- Where the tables may note an id: with the connections to a peer, among the dials that were given
up, or under a dial to a bare address or to a peer. -/
inductive Place where
  | live (p : PeerId)
  | aborted
  | bare
  | peer (p : PeerId)

/-- An id stands in a place. -/
def Holds (c : Connections) (id : ConnectionId) : Place → Prop
  | .live p => ∃ l ∈ c.toPeer p, l.id = id
  | .aborted => id ∈ c.aborted
  | .bare => (c.pendingDials.get? id).isSome
  | .peer p => ∃ d, c.pendingPeers.get? p = some d ∧ d.dial = some id

/-- An id may stand in a place while its dial to someone is in flight. -/
def Place.awaits (dialed : Option PeerId) : Place → Prop
  | .live _ => False
  | .aborted => True
  | .bare => True
  | .peer p => dialed = some p

/-- Every id is one that was given out, stands in one place at most, and stands where it may if its
dial is in flight. -/
structure Placed (c : Connections) (n : Ledger) : Prop where
  unique : ∀ {id : ConnectionId} {x y : Place}, c.Holds id x → c.Holds id y → x = y
  named : ∀ {id : ConnectionId} {x : Place}, c.Holds id x → id ∈ n.named
  flying : ∀ {id : ConnectionId} {x : Place} {peer : Option PeerId}, c.Holds id x →
    n.flying.get? id = some peer → x.awaits peer

variable {c c' : Connections} {n n' : Ledger}

/-- The ids stay in place when each is left where it was, or moved to some one place. -/
theorem Placed.of_moved (h : Placed c n) (hnamed : ∀ id ∈ n.named, id ∈ n'.named)
    (hmoved : ∀ id,
      ((∀ x, c'.Holds id x → c.Holds id x) ∧
        ∀ peer, n'.flying.get? id = some peer → n.flying.get? id = some peer) ∨
      ∃ y, (∀ x, c'.Holds id x → x = y) ∧ id ∈ n'.named ∧
        ∀ peer, n'.flying.get? id = some peer → y.awaits peer) : Placed c' n' where
  unique {id} x y hx hy := by
    rcases hmoved id with ⟨hleft, -⟩ | ⟨z, hz, -⟩
    · exact h.unique (hleft x hx) (hleft y hy)
    · rw [hz x hx, hz y hy]
  named {id} x hx := by
    rcases hmoved id with ⟨hleft, -⟩ | ⟨-, -, hid, -⟩
    · exact hnamed id (h.named (hleft x hx))
    · exact hid
  flying {id} x peer hx hpeer := by
    rcases hmoved id with ⟨hleft, hflying⟩ | ⟨z, hz, -, hawaits⟩
    · exact h.flying (hleft x hx) (hflying peer hpeer)
    · rw [hz x hx]
      exact hawaits peer hpeer

/-! ## The other parts of the invariant -/

/-- The connections to each peer are some, and they differ. -/
def Lively (live : Table PeerId (List LiveConnection)) : Prop :=
  ∀ p ls, live.get? p = some ls → ls ≠ [] ∧ (ls.map (·.id)).Nodup

/-- The dials to bare addresses are those that the addresses lead to, each address to its own. -/
structure Matched (dials : Table ConnectionId PendingDial) (addresses : Table Address ConnectionId) :
    Prop where
  isSome_iff : ∀ {id : ConnectionId}, (dials.get? id).isSome ↔ ∃ a, addresses.get? a = some id
  inj : ∀ {a b : Address} {id : ConnectionId}, addresses.get? a = some id →
    addresses.get? b = some id → a = b

theorem Lively.insert {live : Table PeerId (List LiveConnection)} (h : Lively live) {p : PeerId}
    {ls : List LiveConnection} (hne : ls ≠ []) (hnodup : (ls.map (·.id)).Nodup) :
    Lively (live.insert p ls) := by
  intro q ls' hq
  rw [Table.get?_insert] at hq
  split at hq
  · obtain rfl := Option.some.inj hq
    exact ⟨hne, hnodup⟩
  · exact h q ls' hq

/-- Dropping some dials together with their addresses keeps the rest matched. -/
theorem Matched.of_kept {dials dials' : Table ConnectionId PendingDial}
    {addresses addresses' : Table Address ConnectionId} (h : Matched dials addresses)
    (kept : ConnectionId → Prop)
    (hdials : ∀ id, (dials'.get? id).isSome ↔ (dials.get? id).isSome ∧ kept id)
    (haddresses : ∀ a id, addresses'.get? a = some id ↔ addresses.get? a = some id ∧ kept id) :
    Matched dials' addresses' where
  isSome_iff {id} := by
    simp only [hdials, haddresses, h.isSome_iff, exists_and_right]
  inj {a b id} ha hb := h.inj ((haddresses a id).1 ha).1 ((haddresses b id).1 hb).1

/-- A dial that is begun to an address without one keeps the tables matched. -/
theorem Matched.insert {dials : Table ConnectionId PendingDial}
    {addresses : Table Address ConnectionId} (h : Matched dials addresses) {a : Address}
    {id : ConnectionId} {d : PendingDial} (hid : dials.get? id = none)
    (ha : addresses.get? a = none) : Matched (dials.insert id d) (addresses.insert a id) := by
  -- no address leads to the new id yet, since every id that one leads to has a dial
  have hfree : ∀ b, addresses.get? b ≠ some id := by
    intro b hb
    have hsome := h.isSome_iff.2 ⟨b, hb⟩
    rw [hid] at hsome
    cases hsome
  have hold : ∀ {b k}, b ≠ a → ((addresses.insert a id).get? b = some k ↔
      addresses.get? b = some k) := by
    intro b k hb
    rw [Table.get?_insert, if_neg hb.symm]
  have hnew : (addresses.insert a id).get? a = some id :=
    (Table.get?_insert ..).trans (if_pos rfl)
  have hkey : ∀ {b k}, (addresses.insert a id).get? b = some k →
      (b = a ∧ k = id) ∨ (b ≠ a ∧ k ≠ id ∧ addresses.get? b = some k) := by
    intro b k hb
    by_cases hba : b = a
    · rw [hba, hnew] at hb
      exact Or.inl ⟨hba, (Option.some.inj hb).symm⟩
    · rw [hold hba] at hb
      exact Or.inr ⟨hba, fun hk => hfree b (hk ▸ hb), hb⟩
  constructor
  · intro k
    rw [Table.get?_insert]
    by_cases hk : id = k
    · rw [if_pos hk]
      exact ⟨fun _ => ⟨a, hk ▸ hnew⟩, fun _ => rfl⟩
    · rw [if_neg hk, h.isSome_iff]
      constructor
      · rintro ⟨b, hb⟩
        have hba : b ≠ a := fun hba => by rw [hba, ha] at hb; cases hb
        exact ⟨b, (hold hba).2 hb⟩
      · rintro ⟨b, hb⟩
        rcases hkey hb with ⟨-, hk'⟩ | ⟨-, -, hb'⟩
        · exact absurd hk'.symm hk
        · exact ⟨b, hb'⟩
  · intro b b' k hb hb'
    rcases hkey hb with ⟨rfl, rfl⟩ | ⟨-, hk, hb⟩ <;> rcases hkey hb' with ⟨rfl, hk'⟩ | ⟨-, hk', hb'⟩
    · rfl
    · exact absurd rfl hk'
    · exact absurd hk' hk
    · exact h.inj hb hb'

/-- The tables are in tune with each other and with the network. -/
structure Sound (c : Connections) (n : Ledger) : Prop where
  placed : Placed c n
  lively : Lively c.live
  matched : Matched c.pendingDials c.pendingAddresses
  /-- A dial to a peer is awaited only while there is no connection to it. -/
  apart : ∀ {p : PeerId}, c.toPeer p ≠ [] → c.pendingPeers.get? p = none
  stranger : c.pendingPeers.get? c.self = none

theorem sound_empty (self : PeerId) : Sound (empty self) .blank where
  placed := by
    have hfree : ∀ id x, ¬ (empty self).Holds id x := by
      rintro id (p | _ | _ | p) hx
      · obtain ⟨l, hl, -⟩ := hx
        cases hl
      · cases hx
      · cases hx
      · obtain ⟨d, hd, -⟩ := hx
        cases hd
    exact ⟨fun hx => absurd hx (hfree _ _), fun hx => absurd hx (hfree _ _),
      fun hx => absurd hx (hfree _ _)⟩
  lively p ls h := nomatch h
  matched :=
    { isSome_iff := ⟨fun h => (nomatch h), fun ⟨_, h⟩ => (nomatch h)⟩, inj := fun h => nomatch h }
  apart _ := rfl
  stranger := rfl

/-! ## Steps that only take away -/

/-- Nothing is noted that was not noted before; dials to bare addresses go with their addresses. -/
structure Fewer (c c' : Connections) : Prop where
  self : c'.self = c.self
  live : ∀ p ls', c'.live.get? p = some ls' →
    ∃ ls, c.live.get? p = some ls ∧ ls'.Sublist ls ∧ (ls ≠ [] → ls' ≠ [])
  peers : ∀ p d', c'.pendingPeers.get? p = some d' →
    ∃ d, c.pendingPeers.get? p = some d ∧ d'.dial = d.dial
  dials : ∃ kept : ConnectionId → Prop,
    (∀ id, (c'.pendingDials.get? id).isSome ↔ (c.pendingDials.get? id).isSome ∧ kept id) ∧
      ∀ a id, c'.pendingAddresses.get? a = some id ↔ c.pendingAddresses.get? a = some id ∧ kept id
  aborted : ∀ id ∈ c'.aborted, id ∈ c.aborted

theorem Fewer.toPeer_sublist (h : Fewer c c') (p : PeerId) :
    (c'.toPeer p).Sublist (c.toPeer p) := by
  unfold toPeer
  cases hp : c'.live.get? p with
  | none => exact List.nil_sublist _
  | some ls' =>
    obtain ⟨ls, hls, hsub, -⟩ := h.live p ls' hp
    rw [hls]
    exact hsub

theorem Fewer.holds (h : Fewer c c') {id : ConnectionId} {x : Place} (hx : c'.Holds id x) :
    c.Holds id x := by
  rcases x with p | _ | _ | p
  · obtain ⟨l, hl, hid⟩ := hx
    exact ⟨l, (h.toPeer_sublist p).subset hl, hid⟩
  · exact h.aborted id hx
  · obtain ⟨kept, hdials, -⟩ := h.dials
    exact ((hdials id).1 hx).1
  · obtain ⟨d', hd', hid⟩ := hx
    obtain ⟨d, hd, hdial⟩ := h.peers p d' hd'
    exact ⟨d, hd, hdial ▸ hid⟩

theorem Fewer.pendingPeers_eq_none (h : Fewer c c') {p : PeerId}
    (hp : c.pendingPeers.get? p = none) : c'.pendingPeers.get? p = none := by
  cases hp' : c'.pendingPeers.get? p with
  | none => rfl
  | some d' =>
    obtain ⟨d, hd, -⟩ := h.peers p d' hp'
    rw [hp] at hd
    cases hd

theorem Sound.of_fewer (h : Sound c n) (hf : Fewer c c') (hnamed : ∀ id ∈ n.named, id ∈ n'.named)
    (hflying : ∀ id peer, n'.flying.get? id = some peer → n.flying.get? id = some peer) :
    Sound c' n' where
  placed := h.placed.of_moved hnamed fun id => Or.inl ⟨fun _ => hf.holds, hflying id⟩
  lively p ls' hls' := by
    obtain ⟨ls, hls, hsub, hne⟩ := hf.live p ls' hls'
    obtain ⟨hls_ne, hnodup⟩ := h.lively p ls hls
    exact ⟨hne hls_ne, hnodup.sublist (hsub.map _)⟩
  matched := by
    obtain ⟨kept, hdials, haddresses⟩ := hf.dials
    exact h.matched.of_kept kept hdials haddresses
  apart {p} hp := by
    have hne : c.toPeer p ≠ [] := fun hnil => hp (List.sublist_nil.1 (hnil ▸ hf.toPeer_sublist p))
    exact hf.pendingPeers_eq_none (h.apart hne)
  stranger := by
    rw [hf.self]
    exact hf.pendingPeers_eq_none h.stranger

theorem Fewer.refl (c : Connections) : Fewer c c where
  self := rfl
  live _ ls h := ⟨ls, h, .refl ls, id⟩
  peers _ d h := ⟨d, h, rfl⟩
  dials := ⟨fun _ => True, by simp, by simp⟩
  aborted _ h := h

theorem Ledger.launch_flying {id k : ConnectionId} {peer p : Option PeerId}
    (h : (n.launch id peer).flying.get? k = some p) :
    (k = id ∧ peer = p) ∨ (k ≠ id ∧ n.flying.get? k = some p) := by
  have hk : (n.flying.insert id peer).get? k = some p := h
  rw [Table.get?_insert] at hk
  split at hk
  · rename_i hid
    exact Or.inl ⟨hid.symm, Option.some.inj hk⟩
  · rename_i hne
    exact Or.inr ⟨Ne.symm hne, hk⟩

theorem Ledger.land_flying {id k : ConnectionId} {peer : Option PeerId}
    (h : (n.land id).flying.get? k = some peer) : k ≠ id ∧ n.flying.get? k = some peer := by
  have hk : (n.flying.erase id).get? k = some peer := h
  rw [Table.get?_erase] at hk
  split at hk
  · cases hk
  · rename_i hne
    exact ⟨Ne.symm hne, hk⟩

theorem fewer_closed (c : Connections) (p : PeerId) (id : ConnectionId) :
    Fewer c (c.closed p id).1 := by
  obtain ⟨hself, hpeers, hdials, haddresses, haborted⟩ := c.closed_rest p id
  refine { Fewer.refl c with self := hself, live := ?_, peers := ?_, dials := ?_, aborted := ?_ }
  · intro q ls' hq
    rw [closed_live] at hq
    split at hq
    · rename_i hpq
      obtain ⟨ls, hls, hbind⟩ := Option.bind_eq_some_iff.1 hq
      split at hbind
      · cases hbind
      · rename_i hall
        obtain rfl := Option.some.inj hbind
        refine ⟨ls, hpq ▸ hls, List.filter_sublist, fun _ hnil => hall ?_⟩
        rw [List.filter_eq_nil_iff] at hnil
        simpa using hnil
    · exact ⟨ls', hq, .refl _, fun hne => hne⟩
  · rw [hpeers]
    exact (Fewer.refl c).peers
  · rw [hdials, haddresses]
    exact (Fewer.refl c).dials
  · rw [haborted]
    exact (Fewer.refl c).aborted

/-- Dropping dials to bare addresses and others besides only takes away. -/
theorem fewer_forgetDial (c : Connections) (id : ConnectionId) : Fewer c (c.forgetDial id) := by
  refine { self := ?_, live := ?_, peers := ?_, dials := ?_, aborted := ?_ }
  · rw [forgetDial_eq]
  · rw [forgetDial_eq]
    exact (Fewer.refl c).live
  · rw [forgetDial_eq]
    exact (Fewer.refl c).peers
  · refine ⟨fun k => (c.pendingDials.get? id).isSome → k ≠ id, ?_, ?_⟩
    · intro k
      rw [get?_pendingDials_forgetDial]
      by_cases hk : id = k
      · subst hk
        exact iff_of_false (by simp) fun h => h.2 h.1 rfl
      · rw [if_neg hk]
        exact ⟨fun h => ⟨h, fun _ => Ne.symm hk⟩, And.left⟩
    · intro a k
      exact get?_pendingAddresses_forgetDial
  · rw [forgetDial_eq]
    exact (Fewer.refl c).aborted

theorem Fewer.trans {c'' : Connections} (h : Fewer c c') (h' : Fewer c' c'') : Fewer c c'' where
  self := h'.self.trans h.self
  live p ls'' hls'' := by
    obtain ⟨ls', hls', hsub', hne'⟩ := h'.live p ls'' hls''
    obtain ⟨ls, hls, hsub, hne⟩ := h.live p ls' hls'
    exact ⟨ls, hls, hsub'.trans hsub, hne' ∘ hne⟩
  peers p d'' hd'' := by
    obtain ⟨d', hd', hdial'⟩ := h'.peers p d'' hd''
    obtain ⟨d, hd, hdial⟩ := h.peers p d' hd'
    exact ⟨d, hd, hdial'.trans hdial⟩
  dials := by
    obtain ⟨kept, hdials, haddresses⟩ := h.dials
    obtain ⟨kept', hdials', haddresses'⟩ := h'.dials
    refine ⟨fun id => kept id ∧ kept' id, fun id => ?_, fun a id => ?_⟩
    · rw [hdials', hdials, and_assoc]
    · rw [haddresses', haddresses, and_assoc]
  aborted id hid := h.aborted id (h'.aborted id hid)

/-- An id is no longer counted as given up. -/
theorem fewer_aborted (c : Connections) (id : ConnectionId) :
    Fewer c { c with aborted := c.aborted.filter (· ≠ id) } :=
  { Fewer.refl c with aborted := fun _ h => (List.mem_filter.1 h).1 }

theorem fewer_erase (c : Connections) (p : PeerId) :
    Fewer c { c with pendingPeers := c.pendingPeers.erase p } := by
  refine { Fewer.refl c with peers := ?_ }
  intro q d hd
  have hq : (c.pendingPeers.erase p).get? q = some d := hd
  rw [Table.get?_erase] at hq
  split at hq
  · cases hq
  · exact ⟨d, hq, rfl⟩

theorem fewer_dialFailed (c : Connections) (id : ConnectionId) (peer : Option PeerId)
    (f : DialFault) : Fewer c (c.dialFailed id peer f).1 := by
  have hrest := (fewer_aborted c id).trans (fewer_forgetDial _ id)
  obtain ⟨e, ⟨heq, -⟩ | ⟨p, d, -, -, -, -, heq⟩⟩ := c.dialFailed_eq id peer f
  · rw [heq]
    exact hrest
  · rw [heq]
    exact hrest.trans (fewer_erase _ p)

theorem fewer_joined_peer {p : PeerId} {d : PendingDial} (hd : c.pendingPeers.get? p = some d)
    (caller : CallerId) :
    Fewer c { c with pendingPeers := c.pendingPeers.insert p (PendingDial.join d caller) } := by
  refine { Fewer.refl c with peers := ?_ }
  intro q d' hd'
  have hq : (c.pendingPeers.insert p (PendingDial.join d caller)).get? q = some d' := hd'
  rw [Table.get?_insert] at hq
  split at hq
  · rename_i hpq
    obtain rfl := Option.some.inj hq
    exact ⟨d, hpq ▸ hd, rfl⟩
  · exact ⟨d', hq, rfl⟩

theorem fewer_joined_bare {id : ConnectionId} {d : PendingDial}
    (hd : c.pendingDials.get? id = some d) (caller : CallerId) :
    Fewer c { c with pendingDials := c.pendingDials.insert id (PendingDial.join d caller) } := by
  refine { Fewer.refl c with dials := ⟨fun _ => True, fun k => ?_, by simp⟩ }
  show ((c.pendingDials.insert id (PendingDial.join d caller)).get? k).isSome ↔ _
  rw [Table.get?_insert]
  by_cases hk : id = k
  · simp [← hk, hd]
  · simp [hk]

/-! ## Steps that note an id -/

/-- An id that was not given out yet stands nowhere. -/
theorem Placed.ne_of_fresh (h : Placed c n) {id k : ConnectionId} {x : Place} (fresh : id ∉ n.named)
    (hx : c.Holds k x) : k ≠ id := fun hk => fresh (hk ▸ h.named hx)

/-- A dial that begins has its id stand in one place. -/
theorem Placed.launch (h : Placed c n) {id : ConnectionId} {peer : Option PeerId} {y : Place}
    (fresh : id ∉ n.named) (hawaits : y.awaits peer)
    (hholds : ∀ k x, c'.Holds k x → c.Holds k x ∨ (k = id ∧ x = y)) :
    Placed c' (n.launch id peer) := by
  -- the new id moves to its one place, every other id is left where it is
  refine h.of_moved (fun _ => List.mem_cons_of_mem id) fun k => ?_
  by_cases hk : k = id
  · subst hk
    refine Or.inr ⟨y, fun x hx => ?_, List.mem_cons_self, fun p hp => ?_⟩
    · rcases hholds k x hx with hold | ⟨-, rfl⟩
      · exact absurd rfl (h.ne_of_fresh fresh hold)
      · rfl
    · rcases Ledger.launch_flying hp with ⟨-, rfl⟩ | ⟨hne, -⟩
      · exact hawaits
      · exact absurd rfl hne
  · refine Or.inl ⟨fun x hx => ?_, fun p hp => ?_⟩
    · rcases hholds k x hx with hold | ⟨rfl, -⟩
      · exact hold
      · exact absurd rfl hk
    · rcases Ledger.launch_flying hp with ⟨rfl, -⟩ | ⟨-, hp⟩
      · exact absurd rfl hk
      · exact hp

/-- A dial to a peer is noted; its id is new, if it has one. -/
theorem Sound.insert_peer (h : Sound c n) {p : PeerId} {d : PendingDial} (hself : p ≠ c.self)
    (hlive : c.toPeer p = [])
    (hplaced : Placed { c with pendingPeers := c.pendingPeers.insert p d } n') :
    Sound { c with pendingPeers := c.pendingPeers.insert p d } n' where
  placed := hplaced
  lively := h.lively
  matched := h.matched
  apart {q} hq := by
    have hpq : p ≠ q := fun hpq => hq (hpq ▸ hlive)
    exact (Table.get?_insert ..).trans ((if_neg hpq).trans (h.apart hq))
  stranger := (Table.get?_insert ..).trans ((if_neg hself).trans h.stranger)

theorem holds_insert_peer {p : PeerId} {d : PendingDial} {k : ConnectionId} {x : Place}
    (hx : Holds { c with pendingPeers := c.pendingPeers.insert p d } k x) :
    c.Holds k x ∨ (d.dial = some k ∧ x = .peer p) := by
  rcases x with q | _ | _ | q
  · exact Or.inl hx
  · exact Or.inl hx
  · exact Or.inl hx
  · obtain ⟨d', hd', hdial⟩ := hx
    have hget : (c.pendingPeers.insert p d).get? q = some d' := hd'
    rw [Table.get?_insert] at hget
    split at hget
    · rename_i hpq
      obtain rfl := Option.some.inj hget
      exact Or.inr ⟨hdial, hpq ▸ rfl⟩
    · exact Or.inl ⟨d', hget, hdial⟩

theorem Sound.begin (h : Sound c n) {peer : Option PeerId} {a : Address} {caller : CallerId}
    {id : ConnectionId} (hvacant : c.enlist peer a caller = .vacant) (fresh : id ∉ n.named) :
    Sound (c.begin peer a caller (.begun id)).1 (n.launch id peer) := by
  cases peer with
  | some p =>
    obtain ⟨hself, hlive, -⟩ := vacant_of_peer hvacant
    refine h.insert_peer hself hlive (h.placed.launch (y := .peer p) fresh rfl fun k x hx => ?_)
    rcases holds_insert_peer hx with hold | ⟨hk, hxp⟩
    · exact Or.inl hold
    · exact Or.inr ⟨(Option.some.inj hk).symm, hxp⟩
  | none =>
    -- neither the new id nor the address, for which no dial is awaited, is in the two tables
    have hid : c.pendingDials.get? id = none := by
      rw [← Option.not_isSome_iff_eq_none]
      exact fun hsome => fresh (h.placed.named (x := .bare) hsome)
    have ha : c.pendingAddresses.get? a = none := by
      cases hka : c.pendingAddresses.get? a with
      | none => rfl
      | some k =>
        have hsome := h.matched.isSome_iff.2 ⟨a, hka⟩
        rw [vacant_of_address hvacant hka] at hsome
        cases hsome
    refine { placed := h.placed.launch (y := .bare) fresh trivial fun k x hx => ?_, lively := h.lively
             matched := h.matched.insert hid ha, apart := h.apart, stranger := h.stranger }
    rcases x with q | _ | _ | q
    · exact Or.inl hx
    · exact Or.inl hx
    · have hk : ((c.pendingDials.insert id ⟨a, some id, [caller]⟩).get? k).isSome := hx
      rw [Table.get?_insert] at hk
      split at hk
      · rename_i hidk
        exact Or.inr ⟨hidk.symm, rfl⟩
      · exact Or.inl hk
    · exact Or.inl hx

/-- What the network says to a dial that it does not begin leaves the ids where they are. -/
theorem Sound.begin_refused (h : Sound c n) {peer : Option PeerId} {a : Address} {caller : CallerId}
    {v : Verdict} (hvacant : c.enlist peer a caller = .vacant) (hv : ∀ id, v ≠ .begun id) :
    Sound (c.begin peer a caller v).1 n := by
  cases v with
  | begun id => exact absurd rfl (hv id)
  | rejected f => exact h
  | busy =>
    cases peer with
    | none => exact h
    | some p =>
      obtain ⟨hself, hlive, -⟩ := vacant_of_peer hvacant
      refine h.insert_peer hself hlive (h.placed.of_moved (fun _ hid => hid) fun k => ?_)
      refine Or.inl ⟨fun x hx => ?_, fun _ hpeer => hpeer⟩
      rcases holds_insert_peer hx with hold | ⟨hk, -⟩
      · exact hold
      · cases hk

theorem Sound.dial (h : Sound c n) {peer : Option PeerId} {a : Address} {caller : CallerId}
    {v : Verdict} (hidle : ∀ id, v = .begun id → c.enlist peer a caller ≠ .vacant) :
    Sound (c.dial peer a caller v).1 n := by
  have hsame : ∀ {c'}, Fewer c c' → Sound c' n := fun hf => h.of_fewer hf (fun _ hid => hid)
    fun _ _ hpeer => hpeer
  rcases c.dial_cases peer a caller v with
    ⟨r, -, heq⟩ | ⟨p, d, -, hd, heq⟩ | ⟨id, d, -, hd, heq⟩ | ⟨hvacant, heq⟩
  · rw [heq]
    exact h
  · rw [heq]
    exact hsame (fewer_joined_peer hd caller)
  · rw [heq]
    exact hsame (fewer_joined_bare hd caller)
  · rw [heq]
    exact h.begin_refused hvacant fun id hv => hidle id hv hvacant

/-! ## Giving dials up -/

/-- The id of a dial that nobody waits for any more. -/
def Unawaited (c : Connections) (gone : CallerId → Bool) (id : ConnectionId) : Prop :=
  (∃ p d, c.pendingPeers.get? p = some d ∧ d.callers.all gone = true ∧ d.dial = some id) ∨
    ∃ d, c.pendingDials.get? id = some d ∧ d.callers.all gone = true

theorem stillAwaited_eq_none {κ : Type} [DecidableEq κ] {t : Table κ PendingDial}
    {gone : CallerId → Bool} {k : κ} (h : t.get? k = none) :
    (stillAwaited t gone).get? k = none := by
  cases hk : (stillAwaited t gone).get? k with
  | none => rfl
  | some d' =>
    obtain ⟨d, hd, -⟩ := get?_stillAwaited.1 hk
    rw [h] at hd
    cases hd

/-- After giving up, the id of a dial that nobody waits for is noted as such only, and the others
stand where they stood. -/
theorem Placed.holds_prune (h : Placed c n) {gone : CallerId → Bool} {id : ConnectionId} {x : Place}
    (hx : (c.prune gone).1.Holds id x) :
    (c.Unawaited gone id → x = .aborted) ∧ (¬ c.Unawaited gone id → c.Holds id x) := by
  -- an id that is noted as before is not also that of a dial given up, for it stands in one place
  have hstays : ∀ {y}, c.Holds id y → (∀ p, y = .peer p → ∃ d, c.pendingPeers.get? p = some d ∧
      d.callers.all gone = false) → (y = .bare → ∃ d, c.pendingDials.get? id = some d ∧
      d.callers.all gone = false) → ¬ c.Unawaited gone id := by
    intro y hy hpeer hbare hun
    rcases hun with ⟨p, d, hd, hall, hdial⟩ | ⟨d, hd, hall⟩
    · obtain ⟨d', hd', hall'⟩ := hpeer p (h.unique hy (y := .peer p) ⟨d, hd, hdial⟩)
      rw [hd] at hd'
      obtain rfl := Option.some.inj hd'
      rw [hall] at hall'
      cases hall'
    · obtain ⟨d', hd', hall'⟩ := hbare (h.unique hy (y := .bare) (by rw [Holds, hd]; rfl))
      rw [hd] at hd'
      obtain rfl := Option.some.inj hd'
      rw [hall] at hall'
      cases hall'
  rcases x with p | _ | _ | p
  · have hold : c.Holds id (.live p) := hx
    exact ⟨fun hun => absurd hun (hstays hold (fun _ hy => nomatch hy) fun hy => nomatch hy),
      fun _ => hold⟩
  · refine ⟨fun _ => rfl, fun hun => ?_⟩
    rcases mem_aborted_prune.1 hx with hpeer | hbare | hold
    · exact absurd (Or.inl hpeer) hun
    · exact absurd (Or.inr hbare) hun
    · exact hold
  · have hsome : ((c.prune gone).1.pendingDials.get? id).isSome := hx
    obtain ⟨d', hd'⟩ := Option.isSome_iff_exists.1 hsome
    obtain ⟨d, hd, hall, -⟩ := get?_stillAwaited.1 hd'
    have hold : c.Holds id .bare := by rw [Holds, hd]; rfl
    exact ⟨fun hun => absurd hun (hstays hold (fun _ hy => nomatch hy) fun _ => ⟨d, hd, hall⟩),
      fun _ => hold⟩
  · obtain ⟨d', hd', hdial⟩ := hx
    obtain ⟨d, hd, hall, rfl⟩ := get?_stillAwaited.1 hd'
    have hold : c.Holds id (.peer p) := ⟨d, hd, hdial⟩
    refine ⟨fun hun => absurd hun (hstays hold (fun q hy => ?_) fun hy => nomatch hy), fun _ => hold⟩
    obtain rfl := Place.peer.inj hy
    exact ⟨d, hd, hall⟩

theorem Sound.prune (h : Sound c n) (gone : CallerId → Bool) : Sound (c.prune gone).1 n where
  placed := by
    refine h.placed.of_moved (fun _ hid => hid) fun id => ?_
    -- the id of a dial that nobody waits for moves to those given up, every other stays
    by_cases hun : c.Unawaited gone id
    · refine Or.inr ⟨.aborted, fun x hx => (h.placed.holds_prune hx).1 hun, ?_, fun _ _ => trivial⟩
      rcases hun with ⟨p, d, hd, -, hdial⟩ | ⟨d, hd, -⟩
      · exact h.placed.named (x := .peer p) ⟨d, hd, hdial⟩
      · exact h.placed.named (x := .bare) (by rw [Holds, hd]; rfl)
    · exact Or.inl ⟨fun x hx => (h.placed.holds_prune hx).2 hun, fun _ hpeer => hpeer⟩
  lively := h.lively
  matched := by
    refine h.matched.of_kept
      (fun id => ∀ d, c.pendingDials.get? id = some d → d.callers.all gone = false) (fun id => ?_)
      fun a id => get?_pendingAddresses_prune
    show ((stillAwaited c.pendingDials gone).get? id).isSome ↔ _
    simp only [Option.isSome_iff_exists, get?_stillAwaited]
    constructor
    · rintro ⟨-, d, hd, hall, -⟩
      refine ⟨⟨d, hd⟩, fun d' hd' => ?_⟩
      rw [hd] at hd'
      exact Option.some.inj hd' ▸ hall
    · rintro ⟨⟨d, hd⟩, hall⟩
      exact ⟨_, d, hd, hall d hd, rfl⟩
  apart hp := stillAwaited_eq_none (h.apart hp)
  stranger := stillAwaited_eq_none h.stranger

/-! ## Connections that come -/

variable {p : PeerId} {l : LiveConnection} {health : Table PeerId Health}

theorem pendingPeers_entered (q : PeerId) :
    (c.entered p l health).pendingPeers.get? q =
      if p = q then none else c.pendingPeers.get? q := by
  unfold entered
  rw [forgetDial_eq]
  exact Table.get?_erase c.pendingPeers p q

/-- What is noted of an id once a connection is entered: that connection, or what was noted before,
unless it is a dial that has now ended. -/
theorem holds_entered {k : ConnectionId} {x : Place} (hx : (c.entered p l health).Holds k x) :
    (k = l.id ∧ x = .live p) ∨ (c.Holds k x ∧ (x = .bare → k ≠ l.id) ∧ x ≠ .peer p) := by
  rcases x with q | _ | _ | q
  · obtain ⟨m, hm, hid⟩ := hx
    rw [toPeer_entered] at hm
    split at hm
    · rename_i hpq
      subst hpq
      rcases List.mem_cons.1 ((c.merged_perm p l).subset hm) with rfl | hold
      · exact Or.inl ⟨hid.symm, rfl⟩
      · exact Or.inr ⟨⟨m, hold, hid⟩, (nomatch ·), (nomatch ·)⟩
    · exact Or.inr ⟨⟨m, hm, hid⟩, (nomatch ·), (nomatch ·)⟩
  · have hold : k ∈ (c.entered p l health).aborted := hx
    unfold entered at hold
    rw [forgetDial_eq] at hold
    exact Or.inr ⟨hold, (nomatch ·), (nomatch ·)⟩
  · have hold : ((c.entered p l health).pendingDials.get? k).isSome := hx
    unfold entered at hold
    rw [get?_pendingDials_forgetDial] at hold
    split at hold
    · cases hold
    · rename_i hk
      exact Or.inr ⟨hold, fun _ => Ne.symm hk, (nomatch ·)⟩
  · obtain ⟨d, hd, hdial⟩ := hx
    rw [pendingPeers_entered] at hd
    split at hd
    · cases hd
    · rename_i hpq
      exact Or.inr ⟨⟨d, hd, hdial⟩, (nomatch ·), fun h => hpq (Place.peer.inj h).symm⟩

/-- A connection is entered whose id stands nowhere else. -/
theorem Sound.enter (h : Sound c n) (hother : p ≠ c.self) (hnamed : ∀ id ∈ n.named, id ∈ n'.named)
    (hid : l.id ∈ n'.named)
    (hflying : ∀ id peer, n'.flying.get? id = some peer →
      id ≠ l.id ∧ n.flying.get? id = some peer)
    (hfree : ∀ x, c.Holds l.id x → (x = .bare ∨ x = .peer p)) :
    Sound (c.entered p l health) n' where
  placed := by
    -- The id of the connection moves to the connections, wherever its dial stood. Its dial is over by
    -- then, so there is nothing to say of ids in flight.
    refine h.placed.of_moved hnamed fun k => ?_
    by_cases hk : k = l.id
    · subst hk
      refine Or.inr ⟨.live p, fun x hx => ?_, hid, fun peer hpeer => ?_⟩
      · rcases holds_entered hx with ⟨-, rfl⟩ | ⟨hold, hbare, hpeer⟩
        · rfl
        · rcases hfree x hold with hx | hx
          · exact absurd rfl (hbare hx)
          · exact absurd hx hpeer
      · exact absurd rfl (hflying _ _ hpeer).1
    · refine Or.inl ⟨fun x hx => ?_, fun peer hpeer => (hflying k peer hpeer).2⟩
      rcases holds_entered hx with ⟨rfl, -⟩ | ⟨hold, -⟩
      · exact absurd rfl hk
      · exact hold
  lively := by
    unfold entered
    rw [forgetDial_eq]
    refine h.lively.insert (c.merged_ne_nil p l) ?_
    have hnodup : ((l :: c.toPeer p).map (·.id)).Nodup := by
      rw [List.map_cons, List.nodup_cons]
      constructor
      · intro hmem
        obtain ⟨m, hm, hid⟩ := List.mem_map.1 hmem
        rcases hfree (.live p) ⟨m, hm, hid⟩ with hx | hx <;> cases hx
      · unfold toPeer
        cases hp : c.live.get? p with
        | none => exact List.nodup_nil
        | some ls => exact (h.lively p ls hp).2
    exact (((c.merged_perm p l).map _).nodup_iff).2 hnodup
  matched := by
    obtain ⟨kept, hdials, haddresses⟩ := (fewer_forgetDial { c with
      live := c.live.insert p (c.merged p l), health, pendingPeers := c.pendingPeers.erase p } l.id).dials
    exact h.matched.of_kept kept hdials haddresses
  apart {q} hq := by
    rw [pendingPeers_entered]
    by_cases hpq : p = q
    · rw [if_pos hpq]
    · rw [if_neg hpq]
      rw [toPeer_entered, if_neg hpq] at hq
      exact h.apart hq
  stranger := by
    have hself : (c.entered p l health).self = c.self := by
      unfold entered
      rw [forgetDial_eq]
    rw [hself, pendingPeers_entered, if_neg hother]
    exact h.stranger

/-- A connection comes, whose id stands nowhere but with its dial. -/
theorem Sound.established (h : Sound c n) (hother : p ≠ c.self)
    (hnamed : ∀ id ∈ n.named, id ∈ n'.named) (hid : l.id ∈ n'.named)
    (hflying : ∀ id peer, n'.flying.get? id = some peer →
      id ≠ l.id ∧ n.flying.get? id = some peer)
    (hfree : ∀ x, c.Holds l.id x → x = .aborted ∨ x = .bare ∨ x = .peer p) :
    Sound (c.established p l).1 n' := by
  rcases c.established_eq p l with ⟨-, heq⟩ | ⟨haborted, health, found, -, heq⟩
  · rw [heq]
    exact h.of_fewer (fewer_aborted c l.id) hnamed fun id peer hpeer => (hflying id peer hpeer).2
  · rw [heq]
    refine h.enter hother hnamed hid hflying fun x hx => ?_
    rcases hfree x hx with rfl | hx
    · exact absurd hx haborted
    · exact hx

/-! ## Every step, and every run -/

theorem Sound.step (h : Sound c n) {i : Input} (hi : n.Admits c i n') :
    Sound (c.step i).1 n' := by
  -- the steps that note no id and are allowed by the network as it is
  have hsame : ∀ {c'}, Fewer c c' → Sound c' n := fun hf =>
    h.of_fewer hf (fun _ hid => hid) fun _ _ hpeer => hpeer
  -- a new id was not in flight
  have hfresh : ∀ {id k peer}, id ∉ n.named → (n.name id).flying.get? k = some peer →
      k ≠ id ∧ n.flying.get? k = some peer := fun fresh hpeer =>
    ⟨fun hk => fresh (hk ▸ n.flown _ _ hpeer), hpeer⟩
  cases hi with
  | begin vacant fresh =>
    show Sound (c.dial _ _ _ _).1 _
    unfold Connections.dial
    rw [vacant]
    exact h.begin vacant fresh
  | dial idle => exact h.dial idle
  | prune gone => exact h.prune gone
  | close id =>
    obtain ⟨closures, heq⟩ := close_eq c id
    show Sound (c.close id).1 n
    rw [heq]
    exact hsame { Fewer.refl c with }
  | closed p id => exact hsame (fewer_closed c p id)
  | ping p id rtt =>
    obtain ⟨closures, health, heq⟩ := ping_eq c p id rtt
    show Sound (c.ping p id rtt).1 n
    rw [heq]
    exact hsame { Fewer.refl c with }
  | arrive fresh other =>
    refine h.established other (fun _ => List.mem_cons_of_mem _) List.mem_cons_self
      (fun k peer hpeer => hfresh fresh hpeer) fun x hx => ?_
    exact absurd (h.placed.named hx) fresh
  | arriveDialed dialed same other =>
    refine h.established other (fun _ hid => hid) (n.flown _ _ dialed)
      (fun k peer hpeer => Ledger.land_flying hpeer) fun x hx => ?_
    -- a dial in flight stands only where such dials may: given up, or awaited in the one or other table
    have hawaits := h.placed.flying hx dialed
    rcases x with q | _ | _ | q
    · exact hawaits.elim
    · exact Or.inl rfl
    · exact Or.inr (Or.inl rfl)
    · exact Or.inr (Or.inr (same q hawaits ▸ rfl))
  | fail fresh =>
    exact h.of_fewer (fewer_dialFailed c _ _ _) (fun _ => List.mem_cons_of_mem _)
      fun k peer hpeer => (hfresh fresh hpeer).2
  | failDialed flying =>
    exact h.of_fewer (fewer_dialFailed c _ _ _) (fun _ hid => hid)
      fun k peer hpeer => (Ledger.land_flying hpeer).2

/-- Up to some point of what the network allows, the tables are in tune. -/
theorem Sound.run_append (h : Sound c n) {is js : List Input} (his : n.AdmitsAll c (is ++ js)) :
    ∃ n', Sound (c.run is).1 n' ∧ n'.AdmitsAll (c.run is).1 js := by
  induction is generalizing c n with
  | nil => exact ⟨n, h, his⟩
  | cons i is ih =>
    cases his with
    | cons first rest => exact ih (h.step first) rest

theorem Sound.run (h : Sound c n) {is : List Input} (his : n.AdmitsAll c is) :
    ∃ n', Sound (c.run is).1 n' := by
  rw [← List.append_nil is] at his
  obtain ⟨n', hs, -⟩ := h.run_append his
  exact ⟨n', hs⟩

/-! ## What the tables keep -/

theorem holds_live {q : PeerId} {ls : List LiveConnection} {m : LiveConnection}
    (hq : c.live.get? q = some ls) (hm : m ∈ ls) : c.Holds m.id (.live q) := by
  refine ⟨m, ?_, rfl⟩
  rw [toPeer, hq]
  exact hm

/-- No connection is listed twice, with one peer or with two. -/
theorem Sound.nodup_live (h : Sound c n) :
    (c.live.values.flatMap fun ls => ls.map (·.id)).Nodup := by
  rw [List.nodup_flatMap]
  constructor
  · intro ls hls
    obtain ⟨q, hq⟩ := Table.mem_values.1 hls
    exact (h.lively q ls hq).2
  · have hkeys : c.live.entries.Pairwise fun e f => e.1 ≠ f.1 := List.pairwise_map.1 c.live.nodup
    refine List.pairwise_map.2 (hkeys.imp_of_mem fun {e f} he hf hne => ?_)
    intro id hid hid'
    obtain ⟨m, hm, rfl⟩ := List.mem_map.1 hid
    obtain ⟨m', hm', hsame⟩ := List.mem_map.1 hid'
    -- the id stands with both peers, and so both are the same
    have hheld := holds_live (Table.mem_entries.1 he) hm
    have hheld' : c.Holds m.id (.live f.1) := hsame ▸ holds_live (Table.mem_entries.1 hf) hm'
    exact hne (Place.live.inj (h.placed.unique hheld hheld'))

/-- The addresses lead one to one to the dials. -/
theorem Matched.bijOn {dials : Table ConnectionId PendingDial}
    {addresses : Table Address ConnectionId} (h : Matched dials addresses) :
    Set.BijOn addresses.get? {a | a ∈ addresses.keys}
      {found | ∃ id ∈ dials.keys, found = some id} := by
  refine ⟨?_, ?_, ?_⟩
  · intro a ha
    obtain ⟨id, hid⟩ := Option.isSome_iff_exists.1 (Table.mem_keys.1 ha)
    exact ⟨id, Table.mem_keys.2 (h.isSome_iff.2 ⟨a, hid⟩), hid⟩
  · intro a ha b _ hab
    obtain ⟨id, hid⟩ := Option.isSome_iff_exists.1 (Table.mem_keys.1 ha)
    exact h.inj hid (hab ▸ hid)
  · rintro _ ⟨id, hid, rfl⟩
    obtain ⟨a, ha⟩ := h.isSome_iff.1 (Table.mem_keys.1 hid)
    exact ⟨a, Table.mem_keys.2 (by rw [ha]; rfl), ha⟩

/-- An id that counts as given up is noted nowhere else. -/
theorem Placed.eq_aborted (h : Placed c n) {id : ConnectionId} {x : Place} (hid : id ∈ c.aborted)
    (hx : c.Holds id x) : x = .aborted :=
  h.unique hx (y := .aborted) hid

/-- However a node is used, and whatever a network reports that keeps to its rules: each peer that is
listed has a connection, and no id is listed twice; a dial to a peer is awaited only if there is no
connection to that peer, and none to the node itself is; the addresses that are dialed lead one to
one to the dials to bare addresses; and an id counted as given up is neither that of a connection nor
that of a dial that is awaited. -/
theorem tables_in_tune (self : PeerId) (is : List Input)
    (h : Ledger.blank.AdmitsAll (empty self) is) :
    let c := ((empty self).run is).1
    [] ∉ c.live.values ∧ (c.live.values.flatMap fun ls => ls.map (·.id)).Nodup ∧
      (∀ p ∈ c.live.keys, p ∉ c.pendingPeers.keys) ∧ self ∉ c.pendingPeers.keys ∧
      Set.BijOn c.pendingAddresses.get? {a | a ∈ c.pendingAddresses.keys}
        {found | ∃ id ∈ c.pendingDials.keys, found = some id} ∧
      ∀ id ∈ c.aborted, (∀ ls ∈ c.live.values, ∀ l ∈ ls, l.id ≠ id) ∧ id ∉ c.pendingDials.keys ∧
        ∀ d ∈ c.pendingPeers.values, d.dial ≠ some id := by
  intro c
  obtain ⟨n, hsound⟩ := (sound_empty self).run h
  have hself : c.self = self := run_self (empty self) is
  refine ⟨?_, hsound.nodup_live, ?_, ?_, hsound.matched.bijOn, fun id hid => ⟨?_, ?_, ?_⟩⟩
  · intro hnil
    obtain ⟨p, hp⟩ := Table.mem_values.1 hnil
    exact (hsound.lively p [] hp).1 rfl
  · intro p hlive hpending
    obtain ⟨ls, hls⟩ := Option.isSome_iff_exists.1 (Table.mem_keys.1 hlive)
    have hne : c.toPeer p ≠ [] := by
      rw [toPeer, hls]
      exact (hsound.lively p ls hls).1
    have hsome := Table.mem_keys.1 hpending
    rw [hsound.apart hne] at hsome
    cases hsome
  · intro hpending
    have hsome := Table.mem_keys.1 hpending
    rw [← hself, hsound.stranger] at hsome
    cases hsome
  · intro ls hls l hl hid'
    obtain ⟨p, hp⟩ := Table.mem_values.1 hls
    cases hsound.placed.eq_aborted hid (hid' ▸ holds_live hp hl)
  · intro hdial
    cases hsound.placed.eq_aborted hid (x := .bare) (Table.mem_keys.1 hdial)
  · intro d hd hdial
    obtain ⟨p, hp⟩ := Table.mem_values.1 hd
    cases hsound.placed.eq_aborted hid (x := .peer p) ⟨d, hp, hdial⟩

/-- A node dials a bare address and a peer, gives the first dial up, and is connected to the peer by
both dials. -/
theorem tables_in_tune_of_abandoned :
    let self : PeerId := ⟨[0]⟩
    let p : PeerId := ⟨[1]⟩
    let at_ : Address := [.memory 1]
    let is : List Input := [.dial none at_ 0 (.begun 0), .dial (some p) at_ 1 (.begun 1),
      .prune (· = 0), .established p ⟨1, at_, self⟩, .established p ⟨0, at_, self⟩]
    Ledger.blank.AdmitsAll (empty self) is ∧ [] ∉ ((empty self).run is).1.live.values := by
  intro self p at_ is
  have h : Ledger.blank.AdmitsAll (empty self) is :=
    .cons (.begin rfl (by decide)) <| .cons (.begin rfl (by decide)) <| .cons (.prune _) <|
      .cons (.arriveDialed rfl (fun _ hq => (Option.some.inj hq).symm) (by decide)) <|
      .cons (.arriveDialed rfl (fun _ hq => nomatch hq) (by decide)) .nil
  exact ⟨h, (tables_in_tune self is h).1⟩

end SealedCustody.Connections
