import SealedCustody.Proofs.Connection.Signals

/-!
# Whom a firing reaches

A signal that was handed out for a peer has fired just when the peer, or everyone, was fired since
(`Closures.fired_iff_since`). Signals are shared by all who subscribe to a peer between two firings, are
taken away by a firing and made anew by the next who subscribes, and none of this shows: what was fired
before a signal was handed out, or for another peer, never reaches it.

A step carries `Watched` on: a signal that is still to fire is the one that its peer has. What a run
carries is by induction.
-/

namespace SealedCustody.Closures

variable {k : Closures} {p : PeerId} {s : SignalId} {b : Prop}

/-! ## Runs -/

/-- What the signals of a node meet with. -/
inductive Input where
  | subscribe (p : PeerId)
  | fire (p : PeerId)
  | fireAll
deriving DecidableEq

/-- Takes an input. -/
def step (k : Closures) : Input → Closures
  | .subscribe p => (k.subscribe p).2
  | .fire p => k.fire p
  | .fireAll => k.fireAll

/-- Takes inputs in order. -/
def run (k : Closures) (is : List Input) : Closures := is.foldl step k

/-- The input fires the signal of a peer. -/
def Input.Fires (i : Input) (p : PeerId) : Prop := i = .fire p ∨ i = .fireAll

/-! ## Firing all -/

theorem mem_fired_fireAll : s ∈ k.fireAll.fired ↔ (∃ q, k.current.get? q = some s) ∨ s ∈ k.fired := by
  unfold fireAll
  rw [List.mem_append, Table.mem_values]

theorem Tidy.fireAll (h : k.Tidy) : k.fireAll.Tidy where
  current hq := nomatch hq
  unique hq := nomatch hq
  past hs := by
    rcases mem_fired_fireAll.1 hs with ⟨q, hq⟩ | hs
    · exact (h.current hq).1
    · exact h.past hs

theorem Watched.fireAll (h : k.Watched p s b) : k.fireAll.Watched p s True where
  tidy := h.tidy.fireAll
  fired := by
    rw [iff_true, mem_fired_fireAll]
    by_cases hb : b
    · exact Or.inr (h.fired.2 hb)
    · exact Or.inl ⟨p, h.current hb⟩
  current hnot := absurd trivial hnot

/-! ## What a run fires -/

theorem Tidy.step (h : k.Tidy) (i : Input) : (k.step i).Tidy := by
  cases i with
  | subscribe q => exact h.subscribe q
  | fire q => exact h.fire q
  | fireAll => exact h.fireAll

theorem Tidy.run (h : k.Tidy) (is : List Input) : (k.run is).Tidy := by
  induction is generalizing k with
  | nil => exact h
  | cons i is ih => exact ih (h.step i)

theorem Watched.step (h : k.Watched p s b) (i : Input) : (k.step i).Watched p s (b ∨ i.Fires p) := by
  cases i with
  | subscribe q => exact (h.subscribe q).congr (by simp [Input.Fires])
  | fire q => exact (h.fire q).congr (by simp [Input.Fires, eq_comm])
  | fireAll => exact h.fireAll.congr (by simp [Input.Fires])

theorem Watched.run (h : k.Watched p s b) (is : List Input) :
    (k.run is).Watched p s (b ∨ ∃ i ∈ is, i.Fires p) := by
  induction is generalizing k b with
  | nil => exact h.congr (by simp)
  | cons i is ih => exact (ih (h.step i)).congr (by rw [List.exists_mem_cons_iff, or_assoc])

theorem isFired_iff : k.isFired s = true ↔ s ∈ k.fired := List.contains_iff_mem

theorem exists_fires_iff {is : List Input} :
    (∃ i ∈ is, i.Fires p) ↔ .fire p ∈ is ∨ .fireAll ∈ is := by
  constructor
  · rintro ⟨i, hi, rfl | rfl⟩
    · exact Or.inl hi
    · exact Or.inr hi
  · rintro (hi | hi)
    · exact ⟨_, hi, Or.inl rfl⟩
    · exact ⟨_, hi, Or.inr rfl⟩

/-- A signal that was handed out for a peer has fired just when that peer, or everyone, was fired since.
It then stays fired; and if neither was fired since, it has not fired, whatever was fired for others. -/
theorem fired_iff_since (before since : List Input) (p : PeerId) :
    let given := (empty.run before).subscribe p
    ((given.2.run since).isFired given.1 = true ↔ .fire p ∈ since ∨ .fireAll ∈ since) ∧
    (∀ later, (given.2.run since).isFired given.1 = true →
      (given.2.run (since ++ later)).isFired given.1 = true) ∧
    ((∀ i ∈ since, i ≠ .fire p ∧ i ≠ .fireAll) → (given.2.run since).isFired given.1 = false) := by
  intro given
  have hgiven : given.2.Watched p given.1 False := (tidy_empty.run before).watched p
  have hfired : ∀ is, (given.2.run is).isFired given.1 = true ↔ .fire p ∈ is ∨ .fireAll ∈ is := by
    intro is
    rw [isFired_iff, (hgiven.run is).fired, false_or, exists_fires_iff]
  refine ⟨hfired since, fun later h => ?_, fun hnone => ?_⟩
  · rw [hfired] at h ⊢
    exact h.imp (List.mem_append_left later) (List.mem_append_left later)
  · rw [Bool.eq_false_iff, Ne, hfired]
    rintro (h | h)
    · exact (hnone _ h).1 rfl
    · exact (hnone _ h).2 rfl

/-- A signal that was handed out anew, while the one before it has fired and others are fired. -/
theorem fired_iff_since_of_others :
    let p : PeerId := ⟨[0]⟩
    let q : PeerId := ⟨[1]⟩
    let before : List Input := [.subscribe p, .subscribe q, .fire p]
    let since : List Input := [.subscribe p, .fire q]
    let given := (empty.run before).subscribe p
    (∀ i ∈ since, i ≠ .fire p ∧ i ≠ .fireAll) ∧ (given.2.run since).isFired given.1 = false ∧
      (given.2.run [.fireAll]).isFired given.1 = true ∧
      (given.2.run ([.fireAll] ++ since)).isFired given.1 = true := by
  intro p q before since given
  have hnone : ∀ i ∈ since, i ≠ .fire p ∧ i ≠ .fireAll := by decide
  have hall : (given.2.run [.fireAll]).isFired given.1 = true :=
    (fired_iff_since before [.fireAll] p).1.2 (Or.inr (List.mem_singleton_self _))
  have hsince : (given.2.run since).isFired given.1 = false :=
    (fired_iff_since before since p).2.2 hnone
  exact ⟨hnone, hsince, hall, (fired_iff_since before [.fireAll] p).2.1 since hall⟩

end SealedCustody.Closures
