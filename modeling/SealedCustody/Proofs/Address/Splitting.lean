import SealedCustody.Connection.Table
import Mathlib.Data.List.Basic

/-!
# Splitting off the peer of an address

A dial takes the peer of an address and the address without it apart, and the two are put together again
for the address that an error names. An address that names no peer comes out of this as it was, and so does
one whose last component alone names a peer.

The peer that is taken is the first that is named, and every peer is dropped from the rest. So nothing
else comes back: an address that reaches a peer through another one names the relay afterwards
(`Address.split_restored_iff`, `Address.split_of_relayed`).
-/

namespace SealedCustody

namespace Address

variable {a : Address} {p : PeerId}

theorem peer?_eq_none_iff : a.peer? = none ↔ ∀ c ∈ a, c.isPeer = false := by
  unfold peer?
  rw [List.findSome?_eq_none_iff]
  refine forall₂_congr fun c _ => ?_
  cases c <;> simp [Component.isPeer]

theorem isPeer_of_mem_bare {c : Component} (h : c ∈ a.bare) : c.isPeer = false := by
  simpa using (List.mem_filter.1 h).2

theorem bare_eq_self (h : ∀ c ∈ a, c.isPeer = false) : a.bare = a := by
  refine List.filter_eq_self.2 fun c hc => ?_
  rw [h c hc, Bool.not_false]

theorem withPeer_of_peer?_eq_none (h : a.peer? = none) (p : PeerId) :
    a.withPeer p = a ++ [.peer p] := by
  unfold withPeer splitPeer
  rw [h, bare_eq_self (peer?_eq_none_iff.1 h)]

/-- An address without its peers gets the peer at its end. -/
theorem withPeer_bare (a : Address) (p : PeerId) : a.bare.withPeer p = a.bare ++ [.peer p] :=
  withPeer_of_peer?_eq_none (peer?_eq_none_iff.2 fun _ => isPeer_of_mem_bare) p

/-- A peer behind an address that names none is the one that is found. -/
theorem splitPeer_append_peer (h : a.peer? = none) (p : PeerId) :
    (a ++ [.peer p] : Address).splitPeer = (some p, a) := by
  have hpeer : (a ++ [.peer p] : Address).peer? = some p := by
    unfold peer? at h ⊢
    rw [List.findSome?_append, h]
    rfl
  have hbare : (a ++ [.peer p] : Address).bare = a := by
    unfold bare
    rw [List.filter_append]
    exact (List.append_nil _).trans (bare_eq_self (peer?_eq_none_iff.1 h))
  rw [splitPeer, hpeer, hbare]

/-- Appending the peer to the rest gives the address back just if no component before the last names one. -/
theorem bare_append_peer_eq_iff (h : a.peer? = some p) :
    a.bare ++ [.peer p] = a ↔ ∀ c ∈ a.dropLast, c.isPeer = false := by
  constructor
  · intro hback c hc
    rw [← hback, List.dropLast_concat] at hc
    exact isPeer_of_mem_bare hc
  · intro hearlier
    rcases List.eq_nil_or_concat a with rfl | ⟨init, last, rfl⟩
    · cases h
    · rw [List.concat_eq_append] at h hearlier ⊢
      rw [List.dropLast_concat] at hearlier
      have hinit : peer? init = none := peer?_eq_none_iff.2 hearlier
      -- the peer is named by the last component, the only one left
      have hlast : last = .peer p := by
        unfold peer? at h hinit
        rw [List.findSome?_append, hinit, Option.none_or, List.findSome?_singleton] at h
        cases last with
        | peer q => rw [Option.some.inj h]
        | _ => cases h
      subst hlast
      have hsplit := splitPeer_append_peer hinit p
      rw [splitPeer, Prod.mk.injEq] at hsplit
      rw [hsplit.2]

/-- Splitting off the peer keeps an address that names none, which then takes any peer at its end. The peer
that is split off is the last component, and appending it to the rest gives the address back, just if no
component before the last names a peer; and just then the target that a dial goes by is the address that
was asked for. -/
theorem split_restored_iff (a : Address) :
    (∀ bare, a.splitPeer = (none, bare) →
      bare = a ∧ ∀ p, (a.withPeer p).splitPeer = (some p, a)) ∧
    (∀ p bare, a.splitPeer = (some p, bare) → bare.withPeer p = bare ++ [.peer p] ∧
      (a.getLast? = some (.peer p) ∧ bare.withPeer p = a ↔ ∀ c ∈ a.dropLast, c.isPeer = false)) ∧
    (Connections.targetOf a.splitPeer.1 a.splitPeer.2 = a ↔ ∀ c ∈ a.dropLast, c.isPeer = false) := by
  refine ⟨fun bare hsplit => ?_, fun p bare hsplit => ?_, ?_⟩
  · obtain ⟨hnone, rfl⟩ := Prod.mk.inj hsplit
    refine ⟨bare_eq_self (peer?_eq_none_iff.1 hnone), fun p => ?_⟩
    rw [withPeer_of_peer?_eq_none hnone, splitPeer_append_peer hnone]
  · obtain ⟨hsome, rfl⟩ := Prod.mk.inj hsplit
    refine ⟨withPeer_bare a p, ?_⟩
    rw [withPeer_bare, ← bare_append_peer_eq_iff hsome]
    refine ⟨fun h => h.2, fun hback => ⟨?_, hback⟩⟩
    rw [← hback, List.getLast?_concat]
  · unfold splitPeer
    cases hpeer : a.peer? with
    | none =>
      have hnone := peer?_eq_none_iff.1 hpeer
      exact iff_of_true (bare_eq_self hnone) fun c hc => hnone c (List.dropLast_subset a hc)
    | some p =>
      rw [← bare_append_peer_eq_iff hpeer, ← withPeer_bare]
      rfl

/-- An address that reaches a peer through a relay is split into the relay and the way without the peer,
and put together again it names the relay only. The way to the relay alone, with the peer at its end, is
split as it was put together. -/
theorem split_of_relayed :
    let relay := PeerId.ofPublicKey (List.replicate 32 1)
    let peer := PeerId.ofPublicKey (List.replicate 32 2)
    let way : Address := [.ip4 ⟨127, 0, 0, 1⟩, .port .tcp 4001]
    let a : Address := way ++ [.peer relay, .plain .circuit, .peer peer]
    (way.splitPeer = (none, way) ∧ (way.withPeer peer).splitPeer = (some peer, way)) ∧
      a.splitPeer = (some relay, way ++ [.plain .circuit]) ∧
      ¬(a.getLast? = some (.peer relay) ∧ (way ++ [.plain .circuit] : Address).withPeer relay = a) ∧
      Connections.targetOf a.splitPeer.1 a.splitPeer.2 ≠ a := by
  intro relay peer way a
  obtain ⟨hnone, -⟩ := split_restored_iff way
  obtain ⟨-, hsome, htarget⟩ := split_restored_iff a
  have hway : way.splitPeer = (none, way) := rfl
  have hsplit : a.splitPeer = (some relay, way ++ [.plain .circuit]) := rfl
  have hrelayed : ¬∀ c ∈ a.dropLast, c.isPeer = false := by
    intro h
    exact absurd (h (.peer relay) (by simp [a])) (by simp [Component.isPeer])
  exact ⟨⟨hway, (hnone way hway).2 peer⟩, hsplit, fun h => hrelayed ((hsome _ _ hsplit).2.1 h),
    fun h => hrelayed (htarget.1 h)⟩

end Address

end SealedCustody
