import SealedCustody.Proofs.Connection.Signals

/-!
# Connections that are closed for want of answers

Too many pings in a row that fail have a connection closed. What is counted belongs to the peer, while
pings belong to connections: a ping counts if it is over the connection that comes first to its peer, and
the count begins anew only when an answer comes or the peer is no longer connected. So it goes on when
another connection comes first, because a preferred one takes its place or because it is reported closed
before a redundant one, and the new first connection is blamed for failures of the one before it.

`failures_reign` says what is counted while one connection stays first: its own failures in a row and, as
long as it has not answered, those that it took over. `blamed_for_others_iff` sets this against what was
reported of that connection.
-/

namespace SealedCustody.Connections

variable {c : Connections} {n n' : Ledger} {i : Input} {is js : List Input} {p q : PeerId}
  {id k : ConnectionId} {l : LiveConnection} {rtt : Option Span} {rs : List (Option Span)}
  {before : Nat}

/-! ## Results -/

/-- Notes what an input reports of a connection to a peer; nothing was reported before it came. -/
def note (p : PeerId) (id : ConnectionId) (rs : List (Option Span)) : Input → List (Option Span)
  | .established q l => if q = p ∧ l.id = id then [] else rs
  | .ping q k rtt => if q = p ∧ k = id then rtt :: rs else rs
  | _ => rs

/-- The results of the pings over a connection that were reported since it came, the latest first. -/
def results (p : PeerId) (id : ConnectionId) (is : List Input) : List (Option Span) :=
  is.foldl (note p id) []

/-- How many pings in a row have failed up to the latest, if so many had before all of them. -/
def unanswered (before : Nat) : List (Option Span) → Nat
  | [] => before
  | none :: rs => unanswered before rs + 1
  | some _ :: _ => 0

theorem unanswered_append (before : Nat) (rs ss : List (Option Span)) :
    unanswered before (rs ++ ss) = unanswered (unanswered before ss) rs := by
  induction rs with
  | nil => rfl
  | cons r rs ih =>
    cases r with
    | none => exact congrArg (· + 1) ih
    | some t => rfl

/-- As long as nothing was answered, what was before counts as well. -/
theorem unanswered_of_silent (h : ∀ r ∈ rs, r = none) (before : Nat) :
    unanswered before rs = rs.length + before := by
  induction rs with
  | nil => exact (Nat.zero_add before).symm
  | cons r rs ih =>
    obtain rfl := h r List.mem_cons_self
    rw [unanswered, ih fun s hs => h s (List.mem_cons_of_mem none hs), List.length_cons]
    omega

/-- Once something was answered, what was before counts no more. -/
theorem unanswered_of_answered (h : ¬ ∀ r ∈ rs, r = none) (before : Nat) :
    unanswered before rs = unanswered 0 rs := by
  induction rs with
  | nil => exact absurd nofun h
  | cons r rs ih =>
    cases r with
    | some t => rfl
    | none =>
      refine congrArg (· + 1) (ih fun hall => h fun s hs => ?_)
      rcases List.mem_cons.1 hs with rfl | hmem
      · rfl
      · exact hall s hmem

/-- The last results are failures just when there are so many failures in a row. -/
theorem replicate_prefix_iff (m : Nat) (rs : List (Option Span)) :
    List.replicate m none <+: rs ↔ m ≤ unanswered 0 rs := by
  induction m generalizing rs with
  | zero => exact iff_of_true (List.nil_prefix) (Nat.zero_le _)
  | succ m ih =>
    rw [List.replicate_succ]
    cases rs with
    | nil => simp [unanswered]
    | cons r rs =>
      rw [List.cons_prefix_cons]
      cases r with
      | none =>
        rw [ih, unanswered, Nat.add_le_add_iff_right]
        exact and_iff_right rfl
      | some t => exact iff_of_false (fun h => nomatch h.1) (Nat.not_succ_le_zero m)

/-- What was noted before stays behind, unless the connection comes. -/
theorem foldl_note (h : ∀ l, .established p l ∈ is → l.id ≠ id) (rs : List (Option Span)) :
    is.foldl (note p id) rs = results p id is ++ rs := by
  unfold results
  induction is generalizing rs with
  | nil => rfl
  | cons i is ih =>
    have hrest : ∀ l, .established p l ∈ is → l.id ≠ id := fun l hl =>
      h l (List.mem_cons_of_mem i hl)
    have hnote : note p id rs i = note p id [] i ++ rs := by
      cases i with
      | established q l =>
        have hother : ¬ (q = p ∧ l.id = id) := by
          rintro ⟨rfl, hid⟩
          exact h l List.mem_cons_self hid
        simp only [note, if_neg hother, List.nil_append]
      | ping q k rtt =>
        unfold note
        dsimp only
        split <;> rfl
      | _ => rfl
    rw [List.foldl_cons, List.foldl_cons, ih hrest, ih hrest (note p id [] i), hnote,
      List.append_assoc]

theorem results_append (h : ∀ l, .established p l ∈ js → l.id ≠ id) (is : List Input) :
    results p id (is ++ js) = results p id js ++ results p id is := by
  rw [results, List.foldl_append, foldl_note h]
  rfl

/-! ## What is counted -/

/-- The failed pings that count against a peer. -/
def failures (c : Connections) (p : PeerId) : Nat := ((c.health.get? p).getD ⟨none, 0⟩).failures

/-- Nothing is known of a peer that is not connected. -/
def Forgets (c : Connections) : Prop := ∀ p, c.toPeer p = [] → c.health.get? p = none

/-- A connection is the first to its peer. -/
def First (p : PeerId) (id : ConnectionId) (c : Connections) : Prop :=
  (c.toPeer p).head?.map (·.id) = some id

theorem First.ne_nil (h : First p id c) : c.toPeer p ≠ [] := by
  intro hnil
  rw [First, hnil] at h
  cases h

theorem forgets_empty (self : PeerId) : Forgets (empty self) := fun _ _ => rfl

theorem Forgets.failures_eq_zero (h : Forgets c) (hnil : c.toPeer p = []) : c.failures p = 0 := by
  rw [failures, h p hnil]
  rfl

theorem failures_congr {c' : Connections} (h : c'.health.get? p = c.health.get? p) :
    c'.failures p = c.failures p := by
  rw [failures, h, failures]

/-- A connection that comes changes nothing that is known of its peer, unless it is the first: then
nothing is. -/
theorem health_established (c : Connections) (p : PeerId) (l : LiveConnection) :
    (c.established p l).1.health = c.health ∨
      (c.toPeer p = [] ∧ (c.established p l).1.health = c.health.erase p) := by
  have henter : (c.enter p l).1.health = c.health ∨
      (c.toPeer p = [] ∧ (c.enter p l).1.health = c.health.erase p) := by
    unfold enter
    cases hlive : c.toPeer p with
    | nil => exact Or.inr ⟨rfl, rfl⟩
    | cons existing rest =>
      dsimp only
      split
      · exact Or.inl rfl
      · exact Or.inl rfl
  unfold established
  split
  · exact Or.inl rfl
  · dsimp only
    split
    · exact henter
    · rw [forgetDial_eq]
      exact henter

/-- A connection that goes changes nothing that is known of its peer, unless it is the last: then
nothing is. -/
theorem health_closed (c : Connections) (p : PeerId) (id : ConnectionId) :
    (((c.closed p id).1.toPeer p = [] → c.toPeer p = []) ∧ (c.closed p id).1.health = c.health) ∨
      ((c.closed p id).1.toPeer p = [] ∧ (c.closed p id).1.health = c.health.erase p) := by
  rw [toPeer_closed, if_pos rfl, toPeer]
  unfold closed
  cases c.live.get? p with
  | none => exact Or.inl ⟨fun _ => rfl, rfl⟩
  | some ls =>
    dsimp only
    split
    · rename_i hempty
      exact Or.inr ⟨List.isEmpty_iff.1 hempty, rfl⟩
    · rename_i hrest
      exact Or.inl ⟨fun hnil => absurd (List.isEmpty_iff.2 hnil) hrest, rfl⟩

/-- A ping counts if it is over the first connection to its peer. -/
theorem health_ping (c : Connections) (p : PeerId) (id : ConnectionId) (rtt : Option Span) :
    (c.primaryOf? id ≠ some p ∧ (c.ping p id rtt).1.health = c.health) ∨
      (c.primaryOf? id = some p ∧ ∃ known : Health, known.failures = unanswered (c.failures p) [rtt] ∧
        (c.ping p id rtt).1.health = c.health.insert p known) := by
  unfold ping
  by_cases hfirst : c.primaryOf? id = some p
  · refine Or.inr ⟨hfirst, ?_⟩
    rw [if_neg (not_not_intro hfirst)]
    cases rtt with
    | some t => exact ⟨_, rfl, rfl⟩
    | none =>
      dsimp only
      split
      · obtain ⟨closures, heq⟩ := close_eq { c with health := _ } id
        rw [heq]
        exact ⟨_, rfl, rfl⟩
      · exact ⟨_, rfl, rfl⟩
  · exact Or.inl ⟨hfirst, by rw [if_pos hfirst]⟩

/-- While its peer stays connected, only pings change what is known of it. -/
theorem Forgets.health_kept (h : Forgets c) (hconnected : (c.step i).1.toPeer p ≠ [])
    (hping : ∀ id rtt, i ≠ .ping p id rtt) :
    (c.step i).1.health.get? p = c.health.get? p := by
  cases i with
  | established q l =>
    show (c.established q l).1.health.get? p = _
    rcases c.health_established q l with heq | ⟨hnil, heq⟩
    · rw [heq]
    · rw [heq, Table.get?_erase]
      split
      · rename_i hq
        exact (h p (hq ▸ hnil)).symm
      · rfl
  | closed q id =>
    show (c.closed q id).1.health.get? p = _
    rcases c.health_closed q id with ⟨-, heq⟩ | ⟨hnil, heq⟩
    · rw [heq]
    · rw [heq, Table.get?_erase, if_neg]
      rintro rfl
      exact hconnected hnil
  | ping q id rtt =>
    show (c.ping q id rtt).1.health.get? p = _
    rcases c.health_ping q id rtt with ⟨-, heq⟩ | ⟨-, known, -, heq⟩
    · rw [heq]
    · rw [heq, Table.get?_insert, if_neg]
      rintro rfl
      exact hping id rtt rfl
  | _ => rw [(quiet_step rfl).2.2]

theorem Forgets.step (h : Forgets c) (i : Input) : Forgets (c.step i).1 := by
  intro p hnil
  cases i with
  | established q l =>
    -- the peer was not connected before either, since connections only come
    change (c.established q l).1.toPeer p = [] at hnil
    show (c.established q l).1.health.get? p = none
    have hbefore : c.toPeer p = [] := by
      rcases c.established_eq q l with ⟨-, heq⟩ | ⟨haborted, -⟩
      · rw [heq] at hnil
        exact hnil
      · rw [toPeer_established haborted] at hnil
        split at hnil
        · exact absurd hnil (c.merged_ne_nil q l)
        · exact hnil
    rcases c.health_established q l with heq | ⟨-, heq⟩
    · rw [heq]
      exact h p hbefore
    · rw [heq, Table.get?_erase]
      split
      · rfl
      · exact h p hbefore
  | closed q id =>
    change (c.closed q id).1.toPeer p = [] at hnil
    show (c.closed q id).1.health.get? p = none
    rcases c.health_closed q id with ⟨hlast, heq⟩ | ⟨-, heq⟩
    · rw [heq]
      by_cases hq : q = p
      · subst hq
        exact h q (hlast hnil)
      · rw [toPeer_closed, if_neg hq] at hnil
        exact h p hnil
    · rw [heq, Table.get?_erase]
      split
      · rfl
      · rename_i hq
        rw [toPeer_closed, if_neg hq] at hnil
        exact h p hnil
  | ping q id rtt =>
    change (c.ping q id rtt).1.toPeer p = [] at hnil
    show (c.ping q id rtt).1.health.get? p = none
    obtain ⟨closures, health, hsame⟩ := ping_eq c q id rtt
    have hbefore : c.toPeer p = [] := by
      rw [hsame] at hnil
      exact hnil
    rcases c.health_ping q id rtt with ⟨-, heq⟩ | ⟨hfirst, known, -, heq⟩
    · rw [heq]
      exact h p hbefore
    · rw [heq, Table.get?_insert, if_neg]
      · exact h p hbefore
      · rintro rfl
        exact First.ne_nil (toPeer_of_primaryOf? hfirst) hbefore
  | _ =>
    rw [(quiet_step rfl).2.2]
    rw [toPeer_congr (quiet_step rfl).2.1] at hnil
    exact h p hnil

theorem Forgets.run (h : Forgets c) (is : List Input) : Forgets (c.run is).1 := by
  induction is generalizing c with
  | nil => exact h
  | cons i is ih => exact ih (h.step i)

/-! ## While one connection is first -/

/-- A connection is the first to its peer all through a run. -/
def Reigns (p : PeerId) (id : ConnectionId) (c : Connections) : List Input → Prop
  | [] => First p id c
  | i :: is => First p id c ∧ Reigns p id (c.step i).1 is

theorem Reigns.first (h : Reigns p id c is) : First p id c := by
  cases is with
  | nil => exact h
  | cons i is => exact h.1

theorem Reigns.last (h : Reigns p id c is) : First p id (c.run is).1 := by
  induction is generalizing c with
  | nil => exact h
  | cons i is ih => exact ih h.2

/-- What is first in the end was so all along, or came first at some step and stayed so since. -/
theorem First.reigns (h : First p id (c.run is).1) :
    Reigns p id c is ∨ ∃ past i since, is = past ++ i :: since ∧ ¬ First p id (c.run past).1 ∧
      Reigns p id ((c.run past).1.step i).1 since := by
  induction is generalizing c with
  | nil => exact Or.inl h
  | cons i is ih =>
    rcases ih h with hstays | ⟨past, j, since, rfl, hpast, hreigns⟩
    · by_cases hfirst : First p id c
      · exact Or.inl ⟨hfirst, hstays⟩
      · exact Or.inr ⟨[], i, is, rfl, hfirst, hstays⟩
    · exact Or.inr ⟨i :: past, j, since, rfl, hpast, hreigns⟩

/-- A connection that is first has come already. -/
theorem First.id_ne (h : First p id c) (hs : Sound c n) (hi : n.Admits c i n') (q : PeerId)
    (hcomes : i = .established q l) : l.id ≠ id := by
  rintro rfl
  subst hcomes
  obtain ⟨m, hm, hid⟩ := Option.map_eq_some_iff.1 h
  have hover := hs.over (List.mem_of_head? hm)
  rw [hid] at hover
  exact hi.arrived.2 hover

theorem Reigns.id_ne (h : Reigns p id c is) (hs : Sound c n) (his : n.AdmitsAll c (is ++ js))
    (q : PeerId) (l : LiveConnection) (hl : .established q l ∈ is) : l.id ≠ id := by
  induction is generalizing c n with
  | nil => cases hl
  | cons i is ih =>
    cases his with
    | cons first rest =>
      rcases List.mem_cons.1 hl with hcomes | hlater
      · exact h.1.id_ne hs first q hcomes.symm
      · exact ih h.2 (hs.step first) rest hlater

/-- While a connection is first, what counts is what is reported of it. -/
theorem First.failures_step (hfirst : First p id c) (h : Forgets c) (hs : Sound c n)
    (hstays : First p id (c.step i).1) :
    (c.step i).1.failures p = unanswered (c.failures p) (note p id [] i) := by
  by_cases hping : ∃ q k rtt, i = .ping q k rtt
  · obtain ⟨q, k, rtt, rfl⟩ := hping
    show (c.ping q k rtt).1.failures p = _
    unfold note
    dsimp only
    rcases c.health_ping q k rtt with ⟨hother, heq⟩ | ⟨hprimary, known, hknown, heq⟩
    · rw [failures_congr (congrArg (·.get? p) heq), if_neg]
      · rfl
      · rintro ⟨rfl, rfl⟩
        exact hother (hs.primaryOf?_eq_some_iff.2 hfirst)
    · by_cases hq : q = p
      · subst hq
        have hk : k = id := Option.some.inj ((toPeer_of_primaryOf? hprimary).symm.trans hfirst)
        rw [if_pos ⟨rfl, hk⟩, ← hknown, failures, heq, Table.get?_insert, if_pos rfl]
        rfl
      · rw [if_neg fun hboth => hq hboth.1, unanswered]
        refine failures_congr ?_
        rw [heq, Table.get?_insert, if_neg hq]
  · have hnote : note p id [] i = [] := by
      cases i with
      | established q l => exact ite_self []
      | ping q k rtt => exact absurd ⟨q, k, rtt, rfl⟩ hping
      | _ => rfl
    rw [hnote, unanswered]
    exact failures_congr (h.health_kept hstays.ne_nil fun k rtt heq => hping ⟨p, k, rtt, heq⟩)

/-- While a connection is first, its failures in a row count, and with them those that it took over as
long as it has not answered. -/
theorem failures_reign (hreigns : Reigns p id c is) (h : Forgets c) (hs : Sound c n)
    (his : n.AdmitsAll c (is ++ js)) :
    (c.run is).1.failures p = unanswered (c.failures p) (results p id is) := by
  induction is generalizing c n with
  | nil => rfl
  | cons i is ih =>
    cases his with
    | cons first rest =>
      have hcame := hreigns.2.id_ne (hs.step first) rest p
      have hresults : results p id (i :: is) = results p id is ++ note p id [] i := foldl_note hcame _
      rw [hresults, unanswered_append, ← hreigns.1.failures_step h hs hreigns.2.first]
      exact ih hreigns.2 (h.step i) (hs.step first) rest

/-! ## Whom it is blamed on -/

/-- A failed ping has a connection closed if it is first and the failures get too many with it. -/
theorem Sound.close_mem_ping_iff (hs : Sound c n) :
    .close id ∈ (c.step (.ping p id none)).2 ↔
      First p id c ∧ maxPingFailures ≤ c.failures p + 1 := by
  constructor
  · intro hclose
    rcases close_cases hclose with (h | ⟨q, h, hfirst, hmany⟩) | ⟨q, l, h⟩
    · cases h
    · cases h
      exact ⟨toPeer_of_primaryOf? hfirst, hmany⟩
    · cases h
  · rintro ⟨hfirst, hmany⟩
    exact close_mem_of_orders (Or.inr ⟨p, rfl, hs.primaryOf?_eq_some_iff.2 hfirst, hmany⟩)

/-- A connection that comes first takes over what counts against its peer. -/
theorem Forgets.failures_taken_over (h : Forgets c) (hbefore : ¬ First p id c)
    (hafter : First p id (c.step i).1) : (c.step i).1.failures p = c.failures p := by
  refine failures_congr (h.health_kept hafter.ne_nil ?_)
  rintro k rtt rfl
  have hlive : (c.step (.ping p k rtt)).1.toPeer p = c.toPeer p := by
    refine toPeer_congr (live_step ?_ ?_)
    · exact nofun
    · exact nofun
  rw [First, hlive] at hafter
  exact hbefore hafter

/-- What counts against a peer whose first connection came first at some step and has stayed so. -/
theorem Reigns.failures_eq (hreigns : Reigns p id ((c.run is).1.step i).1 js) (h : Forgets c)
    (hs : Sound c n) (his : n.AdmitsAll c (is ++ i :: (js ++ [.ping p id none])))
    (hbefore : ¬ First p id (c.run is).1) :
    (c.run (is ++ i :: js)).1.failures p =
        unanswered ((c.run is).1.failures p) (results p id js) ∧
      results p id (is ++ i :: js ++ [.ping p id none]) =
        none :: (results p id js ++ results p id (is ++ [i])) := by
  obtain ⟨n', hs', hrest⟩ := hs.run_append his
  cases hrest with
  | cons first rest =>
    have hcame := hreigns.id_ne (hs'.step first) rest p
    constructor
    · rw [run_append]
      refine (failures_reign hreigns ((h.run is).step i) (hs'.step first) rest).trans ?_
      rw [(h.run is).failures_taken_over hbefore hreigns.first]
    · have hsplit : is ++ i :: js ++ [.ping p id none] = is ++ [i] ++ (js ++ [.ping p id none]) := by
        simp
      have hlast : ∀ l, .established p l ∈ js ++ [.ping p id none] → l.id ≠ id := by
        intro l hl
        rcases List.mem_append.1 hl with hl | hl
        · exact hcame l hl
        · cases List.mem_singleton.1 hl
      rw [hsplit, results_append hlast, results_append (by simp)]
      simp [results, note]

/-- A connection is closed for want of answers, though it has not left so many pings in a row
unanswered, just when another was first before it, itself it has not answered since, and with the
failures of the other they get too many. -/
theorem blamed_for_others_iff (self : PeerId) (is : List Input) (p : PeerId) (id : ConnectionId)
    (h : Ledger.blank.AdmitsAll (empty self) (is ++ [.ping p id none])) :
    (.close id ∈ (((empty self).run is).1.step (.ping p id none)).2 ∧
      ¬ List.replicate maxPingFailures none <+: results p id (is ++ [.ping p id none])) ↔
    ∃ past i since other, is = past ++ i :: since ∧
      First p other ((empty self).run past).1 ∧ other ≠ id ∧
      Reigns p id (((empty self).run past).1.step i).1 since ∧ (∀ r ∈ results p id since, r = none) ∧
      (results p id since).length + unanswered 0 (results p id (past ++ [i])) + 1 < maxPingFailures ∧
      maxPingFailures ≤ (results p id since).length + ((empty self).run past).1.failures p + 1 := by
  obtain ⟨n, hs, -⟩ := (sound_empty self).run_append h
  rw [hs.close_mem_ping_iff, replicate_prefix_iff, Nat.not_le]
  constructor
  · rintro ⟨⟨hfirst, hmany⟩, hfew⟩
    rcases hfirst.reigns with hall | ⟨past, i, since, rfl, hbefore, hreigns⟩
    · exact absurd rfl hall.first.ne_nil
    · rw [List.append_assoc, List.cons_append] at h
      obtain ⟨hfailures, hresults⟩ :=
        hreigns.failures_eq (forgets_empty self) (sound_empty self) h hbefore
      rw [hfailures] at hmany
      rw [hresults, unanswered, unanswered_append] at hfew
      by_cases hall : ∀ r ∈ results p id since, r = none
      · rw [unanswered_of_silent hall] at hmany hfew
        cases hhead : (((empty self).run past).1.toPeer p).head? with
        | none =>
          -- the peer was not connected, so nothing counted against it
          have hnil := ((forgets_empty self).run past).failures_eq_zero (List.head?_eq_none_iff.1 hhead)
          omega
        | some l =>
          have hother : First p l.id ((empty self).run past).1 := congrArg _ hhead
          refine ⟨past, i, since, l.id, rfl, hother, ?_, hreigns, hall, hfew, hmany⟩
          rintro rfl
          exact hbefore hother
      · rw [unanswered_of_answered hall] at hmany hfew
        exact absurd hmany (Nat.not_le_of_lt hfew)
  · rintro ⟨past, i, since, other, rfl, hother, hne, hreigns, hall, hfew, hmany⟩
    rw [List.append_assoc, List.cons_append] at h
    have hbefore : ¬ First p id ((empty self).run past).1 := fun hfirst =>
      hne (Option.some.inj (hother.symm.trans hfirst))
    obtain ⟨hfailures, hresults⟩ :=
      hreigns.failures_eq (forgets_empty self) (sound_empty self) h hbefore
    refine ⟨⟨?_, ?_⟩, ?_⟩
    · rw [run_append]
      exact hreigns.last
    · rw [hfailures, unanswered_of_silent hall]
      exact hmany
    · rw [hresults, unanswered, unanswered_append, unanswered_of_silent hall]
      exact hfew

/-- A peer leaves two pings unanswered, a preferred connection takes the place of the first one, and the
first ping over it that fails has it closed. -/
theorem blamed_for_others_iff_of_replaced :
    let self : PeerId := ⟨[1]⟩
    let p : PeerId := ⟨[0]⟩
    let at_ : Address := [.memory 1]
    let is : List Input :=
      [.established p ⟨0, at_, self⟩, .ping p 0 none, .ping p 0 none, .established p ⟨1, at_, p⟩]
    Ledger.blank.AdmitsAll (empty self) (is ++ [.ping p 1 none]) ∧
      .close 1 ∈ (((empty self).run is).1.step (.ping p 1 none)).2 ∧
      ¬ List.replicate maxPingFailures none <+: results p 1 (is ++ [.ping p 1 none]) := by
  intro self p at_ is
  have h : Ledger.blank.AdmitsAll (empty self) (is ++ [.ping p 1 none]) :=
    .cons (.arrive (by decide) (by decide)) <| .cons (.ping ..) <| .cons (.ping ..) <|
      .cons (.arrive (by decide) (by decide)) <| .cons (.ping ..) .nil
  refine ⟨h, (blamed_for_others_iff self is p 1 h).2 ?_⟩
  exact ⟨[.established p ⟨0, at_, self⟩, .ping p 0 none, .ping p 0 none], .established p ⟨1, at_, p⟩, [],
    0, rfl, rfl, by decide, rfl, nofun, by decide, by decide⟩

end SealedCustody.Connections
