import SealedCustody.Event.Channel

/-!
# What a receiver is still to hear

A channel keeps only its last events, and whoever falls behind is not told which were lost. An event is
owed to a receiver (`EventChannel.Owes`) if it is among those it finds next, or if some were lost, and
this one may have been. A receiver is owed what was sent since it subscribed until it has found it, or
found that events were lost.
-/

namespace SealedCustody.EventChannel

variable {c : EventChannel} {r : EventReceiver} {e e' : Event} {es : List Event}

/-! ## Sending -/

/-- The channel keeps the events that were sent, or the last of them if they are too many. -/
def Sound (c : EventChannel) : Prop := c.kept.length = min c.sent capacity

theorem sound_empty : empty.Sound := rfl

theorem kept_send (c : EventChannel) (e : Event) :
    (c.send e).kept = (c.kept ++ [e]).drop (c.kept.length + 1 - capacity) := by
  unfold send
  dsimp only
  rw [List.length_append, List.length_singleton]

theorem length_kept_send (c : EventChannel) (e : Event) :
    (c.send e).kept.length = min (c.kept.length + 1) capacity := by
  rw [kept_send, List.length_drop, List.length_append, List.length_singleton]
  omega

@[simp]
theorem sent_send (c : EventChannel) (e : Event) : (c.send e).sent = c.sent + 1 := rfl

theorem Sound.send (h : c.Sound) (e : Event) : (c.send e).Sound := by
  unfold Sound at h ⊢
  rw [length_kept_send, sent_send]
  omega

/-- The events that are lost when one more is sent are the oldest that were kept. -/
theorem Sound.oldest_send (h : c.Sound) (e : Event) :
    (c.send e).oldest = c.oldest + (c.kept.length + 1 - capacity) := by
  unfold Sound at h
  unfold oldest
  rw [length_kept_send, sent_send]
  omega

/-- Sends events one after another. -/
def sendAll (c : EventChannel) (es : List Event) : EventChannel := es.foldl EventChannel.send c

theorem Sound.sendAll (h : c.Sound) (es : List Event) : (c.sendAll es).Sound := by
  induction es generalizing c with
  | nil => exact h
  | cons e es ih => exact ih (h.send e)

theorem sent_le_sendAll (c : EventChannel) (es : List Event) : c.sent ≤ (c.sendAll es).sent := by
  induction es generalizing c with
  | nil => exact Nat.le_refl _
  | cons e es ih => exact Nat.le_trans (Nat.le_succ _) (ih (c.send e))

/-! ## Receiving -/

/-- The events that a receiver finds next, if none were lost. -/
def unread (c : EventChannel) (r : EventReceiver) : List Event := c.kept.drop (r.next - c.oldest)

/-- A receiver is told that events were lost, or it finds an event, or there is none. -/
theorem Sound.receive_cases (h : c.Sound) (r : EventReceiver) :
    (c.receive r = (.lagged, ⟨c.oldest⟩) ∧ r.next < c.oldest ∧ c.oldest < c.sent) ∨
    (∃ e, c.receive r = (.event e, ⟨r.next + 1⟩) ∧ c.oldest ≤ r.next ∧ r.next < c.sent ∧
      c.unread r = e :: c.unread ⟨r.next + 1⟩) ∨
    (c.receive r = (.nothing, r) ∧ c.oldest ≤ r.next ∧ c.sent ≤ r.next ∧ c.unread r = []) := by
  unfold Sound at h
  unfold receive unread
  by_cases hlost : r.next < c.oldest
  · have hkept : c.oldest < c.sent := by
      unfold oldest capacity at *
      omega
    exact Or.inl ⟨if_pos hlost, hlost, hkept⟩
  · rw [if_neg hlost]
    have hat : r.next + 1 - c.oldest = r.next - c.oldest + 1 := by omega
    cases hget : c.kept[r.next - c.oldest]? with
    | some e =>
      obtain ⟨hlt, heq⟩ := List.getElem?_eq_some_iff.1 hget
      refine Or.inr (Or.inl ⟨e, rfl, by omega, ?_, ?_⟩)
      · unfold oldest at *
        omega
      · rw [hat, List.drop_eq_getElem_cons hlt, heq]
    | none =>
      have hend := List.getElem?_eq_none_iff.1 hget
      refine Or.inr (Or.inr ⟨rfl, by omega, ?_, List.drop_eq_nil_of_le hend⟩)
      unfold oldest at *
      omega

/-- A receiver that has lost no events finds what is sent after all the others. -/
theorem Sound.unread_send (h : c.Sound) (hnext : r.next ≤ c.sent)
    (holdest : (c.send e).oldest ≤ r.next) : (c.send e).unread r = c.unread r ++ [e] := by
  have hsend := h.oldest_send e
  have hat : c.kept.length + 1 - capacity + (r.next - (c.send e).oldest) = r.next - c.oldest := by
    omega
  have hle : r.next - c.oldest ≤ c.kept.length := by
    unfold oldest
    omega
  unfold unread
  rw [kept_send, List.drop_drop, hat, List.drop_append_of_le_length hle]

/-! ## What is owed -/

/-- The receiver is still to hear of the event, or that events were lost. -/
def Owes (c : EventChannel) (r : EventReceiver) (e : Event) : Prop :=
  r.next < c.oldest ∨ e ∈ c.unread r

theorem Sound.owes_send (h : c.Sound) (hnext : r.next ≤ c.sent) (e : Event) : (c.send e).Owes r e := by
  by_cases hlost : r.next < (c.send e).oldest
  · exact Or.inl hlost
  · refine Or.inr ?_
    rw [h.unread_send hnext (by omega)]
    exact List.mem_append_right _ (List.mem_singleton_self e)

theorem Owes.send (howes : c.Owes r e) (h : c.Sound) (hnext : r.next ≤ c.sent) (e' : Event) :
    (c.send e').Owes r e := by
  have hsend := h.oldest_send e'
  by_cases hlost : r.next < (c.send e').oldest
  · exact Or.inl hlost
  · refine Or.inr ?_
    rw [h.unread_send hnext (by omega)]
    exact List.mem_append_left _ (howes.resolve_left (by omega))

theorem Owes.sendAll (howes : c.Owes r e) (h : c.Sound) (hnext : r.next ≤ c.sent) (es : List Event) :
    (c.sendAll es).Owes r e := by
  induction es generalizing c with
  | nil => exact howes
  | cons e' es ih => exact ih (howes.send h hnext e') (h.send e') (Nat.le_succ_of_le hnext)

theorem Sound.owes_sendAll (h : c.Sound) (hnext : r.next ≤ c.sent) (he : e ∈ es) :
    (c.sendAll es).Owes r e := by
  induction es generalizing c with
  | nil => cases he
  | cons e' es ih =>
    have hnext' : r.next ≤ (c.send e').sent := Nat.le_succ_of_le hnext
    rcases List.mem_cons.1 he with rfl | he
    · exact (h.owes_send hnext e).sendAll (h.send e) hnext' es
    · exact ih (h.send e') hnext' he

/-- What is owed to a receiver that finds another event is still owed after that. -/
theorem Owes.received (howes : c.Owes r e) (holdest : c.oldest ≤ r.next)
    (hunread : c.unread r = e' :: c.unread ⟨r.next + 1⟩) (hne : e ≠ e') :
    c.Owes ⟨r.next + 1⟩ e := by
  have hmem := howes.resolve_left (by omega)
  rw [hunread] at hmem
  exact Or.inr ((List.mem_cons.1 hmem).resolve_left hne)

end SealedCustody.EventChannel
