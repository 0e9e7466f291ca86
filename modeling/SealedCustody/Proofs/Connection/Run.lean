import SealedCustody.Connection.Table
import Mathlib.Data.List.Nodup

/-!
# Runs of the connection tables

The tables of a node change only by what the node meets with: callers that want connections or stop
waiting, orders to close, and what the network reports. `Connections.step` takes one such input, and
`Connections.run` takes some of them in order. The network may report anything at any time here; what
it keeps to is said apart, in `Ledger.Admits`.

For each step this module says once what it leaves in the tables, so that nothing else has to open it.
-/

namespace SealedCustody.Connections

/-! ## Inputs -/

/-- What the tables of a node meet with. -/
inductive Input where
  /-- A caller wants a connection; the verdict is what the network would say to a dial. -/
  | dial (peer : Option PeerId) (a : Address) (caller : CallerId) (v : Verdict)
  /-- The dials whose callers are all gone are given up. -/
  | prune (gone : CallerId → Bool)
  /-- A connection is to be closed. -/
  | close (id : ConnectionId)
  | established (p : PeerId) (l : LiveConnection)
  | closed (p : PeerId) (id : ConnectionId)
  | dialFailed (id : ConnectionId) (peer : Option PeerId) (f : DialFault)
  | ping (p : PeerId) (id : ConnectionId) (rtt : Option Span)

/-- Takes an input. -/
def step (c : Connections) : Input → Connections × List Effect
  | .dial peer a caller v => c.dial peer a caller v
  | .prune gone => c.prune gone
  | .close id => c.close id
  | .established p l => c.established p l
  | .closed p id => c.closed p id
  | .dialFailed id peer f => c.dialFailed id peer f
  | .ping p id rtt => c.ping p id rtt

/-- Takes inputs in order. -/
def run (c : Connections) : List Input → Connections × List Effect
  | [] => (c, [])
  | i :: is => (((c.step i).1.run is).1, (c.step i).2 ++ ((c.step i).1.run is).2)

theorem run_append (c : Connections) (is js : List Input) :
    (c.run (is ++ js)).1 = ((c.run is).1.run js).1 := by
  induction is generalizing c with
  | nil => rfl
  | cons i is ih => exact ih (c.step i).1

/-! ## What a step leaves -/

variable {c : Connections}

/-- The connections to a peer once one more is entered. -/
def merged (c : Connections) (p : PeerId) (l : LiveConnection) : List LiveConnection :=
  match c.toPeer p with
  | [] => [l]
  | existing :: rest =>
    if c.replaces p existing l then l :: existing :: rest else existing :: rest ++ [l]

theorem merged_perm (c : Connections) (p : PeerId) (l : LiveConnection) :
    (c.merged p l).Perm (l :: c.toPeer p) := by
  unfold merged
  cases c.toPeer p with
  | nil => exact .refl _
  | cons existing rest =>
    dsimp only
    split
    · exact .refl _
    · exact List.perm_append_singleton l (existing :: rest)

theorem merged_ne_nil (c : Connections) (p : PeerId) (l : LiveConnection) : c.merged p l ≠ [] := by
  intro h
  have hperm := c.merged_perm p l
  rw [h] at hperm
  exact absurd hperm.symm (List.cons_ne_nil _ _ ∘ List.Perm.eq_nil)

/-- Entering a connection changes the connections to its peer, and what is known of the peer. -/
theorem enter_eq (c : Connections) (p : PeerId) (l : LiveConnection) :
    ∃ health, (c.enter p l).1 = { c with live := c.live.insert p (c.merged p l), health } := by
  unfold enter merged
  cases c.toPeer p with
  | nil => exact ⟨_, rfl⟩
  | cons existing rest =>
    dsimp only
    split
    · exact ⟨c.health, rfl⟩
    · exact ⟨c.health, rfl⟩

theorem primary?_of_merged {c' : Connections} {p : PeerId} {l : LiveConnection}
    (h : c'.live.get? p = some (c.merged p l)) : ∃ found, c'.primary? p = some found := by
  unfold primary? toPeer
  rw [h]
  cases hm : c.merged p l with
  | nil => exact absurd hm (c.merged_ne_nil p l)
  | cons first rest => exact ⟨_, rfl⟩

theorem forgetDial_eq (c : Connections) (id : ConnectionId) :
    c.forgetDial id = { c with
      pendingDials := (c.forgetDial id).pendingDials
      pendingAddresses := (c.forgetDial id).pendingAddresses } := by
  unfold forgetDial
  split <;> rfl

@[simp]
theorem get?_pendingDials_forgetDial (c : Connections) (id k : ConnectionId) :
    (c.forgetDial id).pendingDials.get? k = if id = k then none else c.pendingDials.get? k := by
  unfold forgetDial
  split
  · exact Table.get?_erase c.pendingDials id k
  · rename_i hnone
    split
    · rename_i hk
      rw [← hk, hnone]
    · rfl

theorem get?_pendingAddresses_forgetDial {id k : ConnectionId} {a : Address} :
    (c.forgetDial id).pendingAddresses.get? a = some k ↔
      c.pendingAddresses.get? a = some k ∧ ((c.pendingDials.get? id).isSome → k ≠ id) := by
  unfold forgetDial
  split
  · rename_i d hd
    rw [Table.get?_filterValues, Option.filter_eq_some_iff, hd]
    simp
  · rename_i hnone
    simp [hnone]

/-- The tables once a connection is entered and those who wait for it are told. -/
def entered (c : Connections) (p : PeerId) (l : LiveConnection) (health : Table PeerId Health) :
    Connections :=
  forgetDial { c with
    live := c.live.insert p (c.merged p l), health, pendingPeers := c.pendingPeers.erase p } l.id

@[simp]
theorem toPeer_entered (p : PeerId) (l : LiveConnection) (health : Table PeerId Health)
    (q : PeerId) :
    (c.entered p l health).toPeer q = if p = q then c.merged p l else c.toPeer q := by
  unfold entered toPeer
  rw [forgetDial_eq]
  dsimp only
  rw [Table.get?_insert]
  split <;> rfl

/-- An established connection is either closed at once, or entered and the first connection to its peer
handed to those who wait. -/
theorem established_eq (c : Connections) (p : PeerId) (l : LiveConnection) :
    (l.id ∈ c.aborted ∧
      c.established p l = ({ c with aborted := c.aborted.filter (· ≠ l.id) }, [.close l.id])) ∨
    (l.id ∉ c.aborted ∧ ∃ health found, (c.entered p l health).primary? p = some found ∧
      c.established p l = (c.entered p l health, (c.enter p l).2 ++
        (answerAll (c.pendingPeers.get? p) (.ok found) ++
          answerAll (c.pendingDials.get? l.id) (.ok found)))) := by
  unfold established
  by_cases haborted : l.id ∈ c.aborted
  · exact Or.inl ⟨haborted, by rw [if_pos (by simpa using haborted)]⟩
  · refine Or.inr ⟨haborted, ?_⟩
    rw [if_neg (by simpa using haborted)]
    obtain ⟨health, heq⟩ := c.enter_eq p l
    have hlive : (c.enter p l).1.live.get? p = some (c.merged p l) := by
      rw [heq]
      exact (Table.get?_insert ..).trans (if_pos rfl)
    -- there is a connection to hand out, the one just entered if no other
    obtain ⟨found, hfound⟩ := primary?_of_merged hlive
    have hfirst : (c.entered p l health).primary? p = some found := by
      rw [← hfound]
      unfold primary?
      rw [toPeer_entered, if_pos rfl, toPeer, hlive]
      rfl
    dsimp only
    rw [hfound]
    dsimp only
    refine ⟨health, found, hfirst, ?_⟩
    rw [heq]
    rfl

theorem toPeer_established {p : PeerId} {l : LiveConnection} (haborted : l.id ∉ c.aborted)
    (q : PeerId) : (c.established p l).1.toPeer q = if p = q then c.merged p l else c.toPeer q := by
  rcases c.established_eq p l with ⟨hmem, -⟩ | ⟨-, health, found, -, heq⟩
  · exact absurd hmem haborted
  · rw [heq, toPeer_entered]

theorem toPeer_congr {c' : Connections} {p : PeerId} (h : c'.live = c.live) :
    c'.toPeer p = c.toPeer p := by
  unfold toPeer
  rw [h]

theorem toPeer_eq_nil_of_primary?_eq_none {p : PeerId} (h : c.primary? p = none) :
    c.toPeer p = [] := by
  unfold primary? at h
  cases hp : c.toPeer p with
  | nil => rfl
  | cons l rest => rw [hp] at h; cases h

/-- A dial to a peer has to begin only if there is neither a connection nor a dial to it, and the peer
is not the node itself. -/
theorem vacant_of_peer {p : PeerId} {a : Address} {caller : CallerId}
    (h : c.enlist (some p) a caller = .vacant) :
    p ≠ c.self ∧ c.toPeer p = [] ∧ c.pendingPeers.get? p = none := by
  unfold enlist admitPeer at h
  dsimp only at h
  split at h
  · cases h
  rename_i hself
  split at h
  · cases h
  rename_i hprimary
  split at h
  · cases h
  rename_i hpending
  exact ⟨hself, toPeer_eq_nil_of_primary?_eq_none hprimary, hpending⟩

/-- A dial to a bare address has to begin only if none to it is awaited. -/
theorem vacant_of_address {a : Address} {caller : CallerId}
    (h : c.enlist none a caller = .vacant) {id : ConnectionId}
    (hid : c.pendingAddresses.get? a = some id) : c.pendingDials.get? id = none := by
  unfold enlist admitBare at h
  dsimp only at h
  split at h
  · cases h
  rw [hid] at h
  dsimp only at h
  split at h
  · cases h
  · assumption

/-- A caller is answered, or joins a dial, or has one begun. -/
theorem dial_cases (c : Connections) (peer : Option PeerId) (a : Address) (caller : CallerId)
    (v : Verdict) :
    (∃ r, c.enlist peer a caller = .answered r ∧
      c.dial peer a caller v = (c, [.answer caller r])) ∨
    (∃ p d, peer = some p ∧ c.pendingPeers.get? p = some d ∧ c.dial peer a caller v =
      ({ c with pendingPeers := c.pendingPeers.insert p (PendingDial.join d caller) }, [])) ∨
    (∃ id d, peer = none ∧ c.pendingDials.get? id = some d ∧ c.dial peer a caller v =
      ({ c with pendingDials := c.pendingDials.insert id (PendingDial.join d caller) }, [])) ∨
    (c.enlist peer a caller = .vacant ∧ c.dial peer a caller v = c.begin peer a caller v) := by
  unfold dial
  cases henlist : c.enlist peer a caller with
  | answered r => exact Or.inl ⟨r, rfl, rfl⟩
  | vacant => exact Or.inr (Or.inr (Or.inr ⟨rfl, rfl⟩))
  -- who joins finds a dial: under the peer, or under the address
  | joined c' =>
    cases peer with
    | some p =>
      unfold enlist admitPeer at henlist
      dsimp only at henlist
      split at henlist
      · cases henlist
      split at henlist
      · cases henlist
      split at henlist
      · rename_i d hd
        cases henlist
        exact Or.inr (Or.inl ⟨p, d, rfl, hd, rfl⟩)
      · cases henlist
    | none =>
      unfold enlist admitBare at henlist
      dsimp only at henlist
      split at henlist
      · cases henlist
      split at henlist
      · cases henlist
      split at henlist
      · rename_i id _ _ d hd
        cases henlist
        exact Or.inr (Or.inr (Or.inl ⟨id, d, rfl, hd, rfl⟩))
      · cases henlist

theorem dial_live (c : Connections) (peer : Option PeerId) (a : Address) (caller : CallerId)
    (v : Verdict) : (c.dial peer a caller v).1.live = c.live := by
  rcases c.dial_cases peer a caller v with
    ⟨r, -, heq⟩ | ⟨p, d, -, -, heq⟩ | ⟨id, d, -, -, heq⟩ | ⟨-, heq⟩
  · rw [heq]
  · rw [heq]
  · rw [heq]
  · rw [heq]
    cases v <;> cases peer <;> rfl

/-- The dial without the callers that are gone. -/
def trimmed (d : PendingDial) (gone : CallerId → Bool) : PendingDial :=
  { d with callers := d.callers.filter fun w => !gone w }

/-- A dial stays awaited while a caller of it has not gone. -/
theorem get?_stillAwaited {κ : Type} [DecidableEq κ] {t : Table κ PendingDial}
    {gone : CallerId → Bool} {k : κ} {d' : PendingDial} :
    (stillAwaited t gone).get? k = some d' ↔
      ∃ d, t.get? k = some d ∧ d.callers.all gone = false ∧ d' = trimmed d gone := by
  have hkeep : ∀ d : PendingDial,
      (!(trimmed d gone).callers.isEmpty) = true ↔ d.callers.all gone = false := by
    intro d
    simp [trimmed, List.filter_eq_nil_iff]
  unfold stillAwaited
  dsimp only
  rw [Table.get?_filterValues, Table.get?_mapValues, Option.filter_eq_some_iff,
    Option.map_eq_some_iff]
  constructor
  · rintro ⟨⟨d, hd, rfl⟩, hcallers⟩
    exact ⟨d, hd, (hkeep d).1 hcallers, rfl⟩
  · rintro ⟨d, hd, hcallers, rfl⟩
    exact ⟨⟨d, hd, rfl⟩, (hkeep d).2 hcallers⟩

theorem mem_unawaited {κ : Type} [DecidableEq κ] {t : Table κ PendingDial}
    {gone : CallerId → Bool} {k : κ} {d : PendingDial} :
    (k, d) ∈ unawaited t gone ↔ t.get? k = some d ∧ d.callers.all gone = true := by
  unfold unawaited
  rw [List.mem_filter, Table.mem_entries]

/-- A dial counts as given up once it is broken off, or goes on for an address that nobody waits
for. -/
theorem mem_aborted_prune {gone : CallerId → Bool} {id : ConnectionId} :
    id ∈ (c.prune gone).1.aborted ↔
      (∃ p d, c.pendingPeers.get? p = some d ∧ d.callers.all gone = true ∧ d.dial = some id) ∨
      (∃ d, c.pendingDials.get? id = some d ∧ d.callers.all gone = true) ∨ id ∈ c.aborted := by
  unfold prune
  simp only [List.mem_append, List.mem_filterMap, List.mem_map, Prod.exists, mem_unawaited, or_assoc,
    and_assoc]
  simp

/-- The address of a dial is forgotten with the dial. -/
theorem get?_pendingAddresses_prune {gone : CallerId → Bool} {a : Address} {id : ConnectionId} :
    (c.prune gone).1.pendingAddresses.get? a = some id ↔
      c.pendingAddresses.get? a = some id ∧
        ∀ d, c.pendingDials.get? id = some d → d.callers.all gone = false := by
  unfold prune
  rw [Table.get?_filterValues, Option.filter_eq_some_iff]
  refine and_congr_right fun _ => ?_
  rw [Bool.not_eq_true', List.any_eq_false]
  constructor
  · intro h d hd
    by_contra hall
    rw [Bool.not_eq_false] at hall
    exact h (id, d) (mem_unawaited.2 ⟨hd, hall⟩) (by simp)
  · rintro h ⟨k, d⟩ hmem hkey
    obtain ⟨hd, hall⟩ := mem_unawaited.1 hmem
    obtain rfl : k = id := by simpa using hkey
    rw [h d hd] at hall
    cases hall

/-- No connection is left besides one just when there is no other. -/
theorem isEmpty_others (ls : List LiveConnection) (id : ConnectionId) :
    (ls.filter (·.id ≠ id)).isEmpty = ls.all (·.id = id) := by
  rw [Bool.eq_iff_iff, List.isEmpty_iff, List.filter_eq_nil_iff, List.all_eq_true]
  simp

/-- A closed connection is taken out of the connections to its peer, and the peer with its last. -/
theorem closed_live (c : Connections) (p : PeerId) (id : ConnectionId) (q : PeerId) :
    (c.closed p id).1.live.get? q =
      if p = q then (c.live.get? p).bind fun ls =>
        if ls.all (·.id = id) then none else some (ls.filter (·.id ≠ id))
      else c.live.get? q := by
  unfold closed
  cases hp : c.live.get? p with
  | none =>
    dsimp only
    split
    · rename_i hpq
      rw [← hpq, hp]
      rfl
    · rfl
  | some ls =>
    -- the peer goes when the closed connection was its last
    dsimp only
    rw [isEmpty_others, Option.bind_some]
    by_cases hall : ls.all (·.id = id) = true
    · rw [if_pos hall, if_pos hall]
      exact Table.get?_erase c.live p q
    · rw [if_neg hall, if_neg hall]
      exact Table.get?_insert ..

/-- A closed connection is no longer among those to its peer. -/
theorem toPeer_closed (c : Connections) (p : PeerId) (id : ConnectionId) (q : PeerId) :
    (c.closed p id).1.toPeer q =
      if p = q then (c.toPeer q).filter (·.id ≠ id) else c.toPeer q := by
  unfold toPeer
  rw [closed_live]
  by_cases hpq : p = q
  · rw [if_pos hpq, if_pos hpq, hpq]
    cases c.live.get? q with
    | none => rfl
    | some ls =>
      rw [Option.bind_some]
      split
      · rename_i hall
        refine (List.filter_eq_nil_iff.2 fun l hl => ?_).symm
        simpa using List.all_eq_true.1 hall l hl
      · rfl
  · rw [if_neg hpq, if_neg hpq]

theorem closed_rest (c : Connections) (p : PeerId) (id : ConnectionId) :
    (c.closed p id).1.self = c.self ∧ (c.closed p id).1.pendingPeers = c.pendingPeers ∧
      (c.closed p id).1.pendingDials = c.pendingDials ∧
      (c.closed p id).1.pendingAddresses = c.pendingAddresses ∧
      (c.closed p id).1.aborted = c.aborted := by
  unfold closed
  split
  · exact ⟨rfl, rfl, rfl, rfl, rfl⟩
  · dsimp only
    split <;> exact ⟨rfl, rfl, rfl, rfl, rfl⟩

/-- A dial that failed is forgotten, and those who wait for it are told; so are those who wait for its
peer, if they wait for it and there is no connection to the peer. -/
theorem dialFailed_eq (c : Connections) (id : ConnectionId) (peer : Option PeerId) (f : DialFault) :
    let rest := forgetDial { c with aborted := c.aborted.filter (· ≠ id) } id
    ∃ e, (c.dialFailed id peer f = (rest, answerAll (c.pendingDials.get? id) (.error e)) ∧
        ∀ p d, peer = some p → c.pendingPeers.get? p = some d →
          ¬ (d.dial.all (· = id) ∧ c.live.contains p = false)) ∨
      ∃ p d, peer = some p ∧ c.pendingPeers.get? p = some d ∧ d.dial.all (· = id) ∧
        c.live.contains p = false ∧ c.dialFailed id peer f =
          ({ rest with pendingPeers := rest.pendingPeers.erase p },
            answerAll (c.pendingDials.get? id) (.error e) ++
              answerAll (some d) (.error (f.error d.target.text))) := by
  intro rest
  have hpeers : rest.pendingPeers = c.pendingPeers := by
    show (forgetDial _ id).pendingPeers = _
    rw [forgetDial_eq]
  have hlive : rest.live = c.live := by
    show (forgetDial _ id).live = _
    rw [forgetDial_eq]
  refine ⟨f.error (((c.pendingDials.get? id).map fun d => d.target.text).getD ""), ?_⟩
  unfold dialFailed
  dsimp only
  cases peer with
  | none => exact Or.inl ⟨rfl, fun _ _ h => nomatch h⟩
  | some p =>
    dsimp only
    rw [show (forgetDial _ id) = rest from rfl, hpeers, hlive]
    cases hd : c.pendingPeers.get? p with
    | none =>
      refine Or.inl ⟨rfl, fun q d hq hget => ?_⟩
      rw [← Option.some.inj hq, hd] at hget
      cases hget
    | some d =>
      dsimp only
      split
      · rename_i hmatch
        rw [Bool.and_eq_true, Bool.not_eq_true'] at hmatch
        exact Or.inr ⟨p, d, rfl, hd, hmatch.1, hmatch.2, rfl⟩
      · rename_i hmatch
        refine Or.inl ⟨rfl, fun q d' hq hget hboth => hmatch ?_⟩
        obtain rfl := Option.some.inj hq
        obtain rfl := Option.some.inj (hd.symm.trans hget)
        rw [hboth.1, hboth.2]
        rfl

/-- Closing leaves all tables but the signals as they are. -/
theorem close_eq (c : Connections) (id : ConnectionId) :
    ∃ closures, (c.close id).1 = { c with closures } := by
  unfold close
  dsimp only
  split
  · exact ⟨_, rfl⟩
  · exact ⟨c.closures, rfl⟩

/-- A ping changes no more than the health of the peer and, if it has the connection closed, the
signals. -/
theorem ping_eq (c : Connections) (p : PeerId) (id : ConnectionId) (rtt : Option Span) :
    ∃ closures health, (c.ping p id rtt).1 = { c with closures, health } := by
  unfold ping
  split
  · exact ⟨c.closures, c.health, rfl⟩
  · cases rtt with
    | some t => exact ⟨c.closures, _, rfl⟩
    | none =>
      dsimp only
      split
      · obtain ⟨closures, hclose⟩ := close_eq { c with health := _ } id
        exact ⟨closures, _, hclose⟩
      · exact ⟨c.closures, _, rfl⟩

/-- Whether an input is of neither connections that come and go nor pings. -/
def Input.isQuiet : Input → Bool
  | .established .. | .closed .. | .ping .. => false
  | _ => true

/-- Unless connections come or go or a ping is reported, a step changes nothing about the node, who is
connected and what is known of peers. -/
theorem quiet_step {i : Input} (h : i.isQuiet = true) :
    (c.step i).1.self = c.self ∧ (c.step i).1.live = c.live ∧ (c.step i).1.health = c.health := by
  cases i with
  | dial peer a caller v =>
    unfold step
    dsimp only
    rcases c.dial_cases peer a caller v with
      ⟨r, -, heq⟩ | ⟨p, d, -, -, heq⟩ | ⟨id, d, -, -, heq⟩ | ⟨-, heq⟩
    · rw [heq]
      exact ⟨rfl, rfl, rfl⟩
    · rw [heq]
      exact ⟨rfl, rfl, rfl⟩
    · rw [heq]
      exact ⟨rfl, rfl, rfl⟩
    · rw [heq]
      cases v <;> cases peer <;> exact ⟨rfl, rfl, rfl⟩
  | prune gone => exact ⟨rfl, rfl, rfl⟩
  | close id =>
    obtain ⟨closures, heq⟩ := close_eq c id
    unfold step
    dsimp only
    rw [heq]
    exact ⟨rfl, rfl, rfl⟩
  | dialFailed id peer f =>
    unfold step
    dsimp only
    obtain ⟨e, ⟨heq, -⟩ | ⟨p, d, -, -, -, -, heq⟩⟩ := c.dialFailed_eq id peer f
    · rw [heq, forgetDial_eq]
      exact ⟨rfl, rfl, rfl⟩
    · rw [heq, forgetDial_eq]
      exact ⟨rfl, rfl, rfl⟩
  | _ => cases h

/-- Only connections that come and go change who is connected. -/
theorem live_step {i : Input} (hcomes : ∀ p l, i ≠ .established p l)
    (hgoes : ∀ p id, i ≠ .closed p id) : (c.step i).1.live = c.live := by
  cases i with
  | established p l => exact absurd rfl (hcomes p l)
  | closed p id => exact absurd rfl (hgoes p id)
  | ping p id rtt =>
    obtain ⟨closures, health, heq⟩ := ping_eq c p id rtt
    show (c.ping p id rtt).1.live = c.live
    rw [heq]
  | _ => exact (quiet_step rfl).2.1

/-- The node stays the same. -/
theorem step_self (c : Connections) (i : Input) : (c.step i).1.self = c.self := by
  cases i with
  | established p l =>
    show (c.established p l).1.self = c.self
    rcases c.established_eq p l with ⟨-, heq⟩ | ⟨-, health, found, -, heq⟩
    · rw [heq]
    · rw [heq]
      unfold entered
      rw [forgetDial_eq]
  | closed p id => exact (c.closed_rest p id).1
  | ping p id rtt =>
    obtain ⟨closures, health, heq⟩ := ping_eq c p id rtt
    show (c.ping p id rtt).1.self = c.self
    rw [heq]
  | _ => exact (quiet_step rfl).1

theorem run_self (c : Connections) (is : List Input) : (c.run is).1.self = c.self := by
  induction is generalizing c with
  | nil => rfl
  | cons i is ih => exact (ih (c.step i).1).trans (c.step_self i)

end SealedCustody.Connections
