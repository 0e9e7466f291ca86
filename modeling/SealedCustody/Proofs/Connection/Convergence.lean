import SealedCustody.Proofs.Connection.Run
import Mathlib.Data.List.Perm.Basic

/-!
# Which connection two nodes keep

Two nodes that reach for each other at once end up with several connections between them, and each
closes all but one. Neither asks the other: each has only the order in which the network told it of the
connections. `leading` is what comes of that order: the first connection that was dialed by the smaller
of the two nodes, or the first of all if that node has dialed none.

What is kept is a function of the order (`Leads.run`), so the two nodes agree just when their orders have
the same leading connection. One dial by the smaller node decides the matter whatever the orders are.
Several dials by one side do not: the nodes may keep different ones, and then each closes what the
other keeps.
-/

namespace SealedCustody.Connections

/-! ## The leading one of a list -/

variable {α β : Type}

/-- The first that is preferred, or the first of all if none is. -/
def leading (isPreferred : α → Bool) (xs : List α) : Option α := (xs.find? isPreferred).or xs.head?

/-- One more leads only if it alone is preferred. -/
theorem leading_append (isPreferred : α → Bool) (xs : List α) (x : α) :
    leading isPreferred (xs ++ [x]) = match leading isPreferred xs with
      | none => some x
      | some y => if isPreferred x && !isPreferred y then some x else some y := by
  unfold leading
  rw [List.find?_append]
  cases hfind : xs.find? isPreferred with
  | some y =>
    have hy : isPreferred y = true := List.find?_some hfind
    simp [hy]
  | none =>
    cases xs with
    | nil => cases hx : isPreferred x <;> simp [hx]
    | cons y ys =>
      have hy : isPreferred y = false := by
        simpa using List.find?_eq_none.1 hfind y List.mem_cons_self
      cases hx : isPreferred x <;> simp [hx, hy]

theorem leading_map (f : α → β) (isPreferred : β → Bool) (xs : List α) :
    leading isPreferred (xs.map f) = (leading (isPreferred ∘ f) xs).map f := by
  unfold leading
  rw [List.find?_map, List.head?_map, Option.map_or]

theorem mem_of_leading {isPreferred : α → Bool} {xs : List α} {x : α}
    (h : leading isPreferred xs = some x) : x ∈ xs := by
  unfold leading at h
  cases hfind : xs.find? isPreferred with
  | some y =>
    rw [hfind, Option.some_or] at h
    exact Option.some.inj h ▸ List.mem_of_find?_eq_some hfind
  | none =>
    rw [hfind, Option.none_or] at h
    exact List.mem_of_head? h

theorem leading_isSome {isPreferred : α → Bool} {xs : List α} (h : xs ≠ []) :
    ∃ x, leading isPreferred xs = some x := by
  cases xs with
  | nil => exact absurd rfl h
  | cons x xs =>
    unfold leading
    cases (x :: xs).find? isPreferred with
    | some y => exact ⟨y, rfl⟩
    | none => exact ⟨x, rfl⟩

/-- The only one that is preferred leads wherever it stands. -/
theorem leading_eq_of_filter {isPreferred : α → Bool} {xs : List α} {x : α}
    (h : xs.filter isPreferred = [x]) : leading isPreferred xs = some x := by
  unfold leading
  -- what is found first among all is the first of those that are preferred
  rw [← List.head?_filter, h]
  rfl

/-! ## What a node keeps -/

/-- Of two nodes the one whose connections are preferred. -/
def preferred (a b : PeerId) : PeerId := if a.before b then a else b

/-- The two nodes prefer the connections of the same one. -/
theorem preferred_comm (a b : PeerId) : preferred a b = preferred b a := by
  unfold preferred PeerId.before
  simp only [decide_eq_true_eq]
  by_cases hab : a.octets < b.octets
  · rw [if_pos hab, if_neg (List.lt_asymm hab)]
  · by_cases hba : b.octets < a.octets
    · rw [if_neg hab, if_pos hba]
    -- neither is before the other: they are the same node, and either choice is that one
    · have heq : a = b := congrArg PeerId.mk (List.le_antisymm hba hab)
      rw [heq]

variable {c : Connections} {p : PeerId} {i : Input}

theorem replaces_eq (c : Connections) (p : PeerId) (existing l : LiveConnection) :
    c.replaces p existing l =
      (decide (l.dialer = preferred c.self p) && !decide (existing.dialer = preferred c.self p)) := by
  unfold replaces preferred
  rw [← decide_not]

/-- The connection to a peer that an input enters: not one whose dial was given up. -/
def entered? (c : Connections) (p : PeerId) : Input → Option LiveConnection
  | .established q l => if q = p ∧ l.id ∉ c.aborted then some l else none
  | _ => none

theorem entered?_eq_some {l : LiveConnection} (h : c.entered? p i = some l) :
    i = .established p l ∧ l.id ∉ c.aborted := by
  cases i with
  | established q m =>
    simp only [entered?] at h
    split at h
    · rename_i hq
      obtain rfl := Option.some.inj h
      exact ⟨by rw [hq.1], hq.2⟩
    · cases h
  | _ => cases h

/-- The connections to a peer that a run enters, in order. -/
def entries (c : Connections) (p : PeerId) : List Input → List LiveConnection
  | [] => []
  | i :: is => (c.entered? p i).toList ++ entries (c.step i).1 p is

/-- A step leaves the connections to a peer, unless it enters one or takes one out. -/
theorem toPeer_step (c : Connections) (p : PeerId) (hi : ∀ id, i ≠ .closed p id) :
    (c.step i).1.toPeer p = match c.entered? p i with
      | none => c.toPeer p
      | some l => c.merged p l := by
  cases i with
  | established q l =>
    show (c.established q l).1.toPeer p = _
    rcases c.established_eq q l with ⟨haborted, heq⟩ | ⟨haborted, health, found, -, heq⟩
    · have hentry : c.entered? p (.established q l) = none := if_neg fun h => h.2 haborted
      rw [heq, hentry]
      rfl
    · rw [heq, toPeer_entered]
      by_cases hq : q = p
      · have hentry : c.entered? p (.established q l) = some l := if_pos ⟨hq, haborted⟩
        rw [hentry, if_pos hq, hq]
      · have hentry : c.entered? p (.established q l) = none := if_neg fun h => hq h.1
        rw [hentry, if_neg hq]
  | closed q id =>
    have hq : q ≠ p := fun hq => hi id (hq ▸ rfl)
    show (c.closed q id).1.toPeer p = c.toPeer p
    unfold toPeer
    rw [closed_live, if_neg hq]
  | _ => exact toPeer_congr (live_step (fun _ _ h => nomatch h) fun _ _ h => nomatch h)

/-- Entering a connection where there is one already has one of the two closed. -/
theorem close_mem_step {l existing : LiveConnection} (hentry : c.entered? p i = some l)
    (hfirst : (c.toPeer p).head? = some existing) :
    .close (if c.replaces p existing l then existing else l).id ∈ (c.step i).2 := by
  obtain ⟨rfl, haborted⟩ := entered?_eq_some hentry
  obtain ⟨rest, hlive⟩ := List.head?_eq_some_iff.1 hfirst
  have hclose : .close (if c.replaces p existing l then existing else l).id ∈ (c.enter p l).2 := by
    unfold enter
    rw [hlive]
    dsimp only
    split
    · exact List.mem_singleton_self _
    · exact List.mem_singleton_self _
  show _ ∈ (c.established p l).2
  rcases c.established_eq p l with ⟨habort, -⟩ | ⟨-, health, found, -, heq⟩
  · exact absurd habort haborted
  · rw [heq]
    exact List.mem_append_left _ hclose

/-- After some connections to a peer were entered, the first one is the leading one of them, and every
other has been closed. -/
structure Leads (c : Connections) (p : PeerId) (seen : List LiveConnection) (effects : List Effect) :
    Prop where
  first : (c.toPeer p).head? = leading (fun l => l.dialer = preferred c.self p) seen
  closes : ∀ l ∈ seen, (c.toPeer p).head? ≠ some l → .close l.id ∈ effects

theorem head?_merged (c : Connections) (p : PeerId) (l : LiveConnection) :
    (c.merged p l).head? = match (c.toPeer p).head? with
      | none => some l
      | some existing => if c.replaces p existing l then some l else some existing := by
  unfold merged
  cases c.toPeer p with
  | nil => rfl
  | cons existing rest =>
    show (if _ then _ else _ : List LiveConnection).head? = _
    split <;> simp [*]

theorem Leads.step {seen : List LiveConnection} {effects : List Effect} (h : Leads c p seen effects)
    (hi : ∀ id, i ≠ .closed p id) :
    Leads (c.step i).1 p (seen ++ (c.entered? p i).toList) (effects ++ (c.step i).2) := by
  -- Either the step enters nothing to the peer and the first stays, or it enters `l`, which is weighed
  -- against the first alone.
  have hstep := c.toPeer_step p hi
  cases hentry : c.entered? p i with
  | none =>
    rw [hentry] at hstep
    refine ⟨?_, ?_⟩
    · rw [hstep, step_self, Option.toList_none, List.append_nil]
      exact h.first
    · intro l hl hne
      rw [Option.toList_none, List.append_nil] at hl
      rw [hstep] at hne
      exact List.mem_append_left _ (h.closes l hl hne)
  | some l =>
    rw [hentry] at hstep
    dsimp only at hstep
    refine ⟨?_, ?_⟩
    · rw [hstep, head?_merged, step_self, Option.toList_some, leading_append, h.first]
      simp only [replaces_eq]
      cases leading (fun l => decide (l.dialer = preferred c.self p)) seen with
      | none => rfl
      | some existing => rfl
    · intro m hm hne
      rw [hstep, head?_merged] at hne
      rw [Option.toList_some, List.mem_append, List.mem_singleton] at hm
      cases hfirst : (c.toPeer p).head? with
      | none =>
        rw [hfirst] at hne
        rcases hm with hm | rfl
        · exact List.mem_append_left _ (h.closes m hm (by rw [hfirst]; exact fun h => nomatch h))
        · exact absurd rfl hne
      | some existing =>
        rw [hfirst] at hne
        dsimp only at hne
        -- one of `existing` and `l` is closed; every other was closed when it lost its place
        have hclose := close_mem_step hentry hfirst
        rcases hm with hm | rfl
        · by_cases hm' : existing = m
          · -- the connection that was first is closed only if another takes its place
            subst hm'
            by_cases hreplaces : c.replaces p existing l = true
            · rw [if_pos hreplaces] at hclose
              exact List.mem_append_right _ hclose
            · rw [if_neg hreplaces] at hne
              exact absurd rfl hne
          · have hold : (c.toPeer p).head? ≠ some m := by
              rw [hfirst]
              exact fun heq => hm' (Option.some.inj heq)
            exact List.mem_append_left _ (h.closes m hm hold)
        · by_cases hreplaces : c.replaces p existing m = true
          · rw [if_pos hreplaces] at hne
            exact absurd rfl hne
          · rw [if_neg hreplaces] at hclose
            exact List.mem_append_right _ hclose

/-- However else a node is used: as long as no connection to a peer is reported closed, the first one is
the leading one of those that were entered, and the others are being closed. -/
theorem Leads.run {seen : List LiveConnection} {effects : List Effect} (h : Leads c p seen effects)
    {is : List Input} (his : ∀ id, .closed p id ∉ is) :
    Leads (c.run is).1 p (seen ++ c.entries p is) (effects ++ (c.run is).2) := by
  induction is generalizing c seen effects with
  | nil =>
    show Leads c p (seen ++ []) (effects ++ [])
    rw [List.append_nil, List.append_nil]
    exact h
  | cons i is ih =>
    have hi : ∀ id, i ≠ .closed p id := fun id heq => his id (heq ▸ List.mem_cons_self)
    have hrest : ∀ id, .closed p id ∉ is := fun id hid => his id (List.mem_cons_of_mem i hid)
    have hrun := ih (h.step hi) hrest
    rw [List.append_assoc, List.append_assoc] at hrun
    exact hrun

/-! ## What two nodes keep -/

/-- A connection between two nodes, as each of them sees it. Both know which of them dialed. -/
structure Bond where
  here : LiveConnection
  there : LiveConnection
  agreed : there.dialer = here.dialer

/-- Two nodes without a connection between them are told of some, each in an order of its own and with
anything else in between, but of none that it is closed. -/
structure Meeting (a b : PeerId) (bonds : List Bond) where
  atA : Connections
  atB : Connections
  inputsA : List Input
  inputsB : List Input
  orderA : List Bond
  orderB : List Bond
  selfA : atA.self = a
  selfB : atB.self = b
  strangersA : atA.toPeer b = []
  strangersB : atB.toPeer a = []
  permA : orderA.Perm bonds
  permB : orderB.Perm bonds
  enteredA : atA.entries b inputsA = orderA.map (·.here)
  enteredB : atB.entries a inputsB = orderB.map (·.there)
  openA : ∀ id, .closed b id ∉ inputsA
  openB : ∀ id, .closed a id ∉ inputsB

/-- The bond that a node keeps of those it is told of in some order: the first that one of the two nodes
dialed, or the first of all. -/
def kept (m : PeerId) (order : List Bond) : Option Bond := leading (fun x => x.here.dialer = m) order

namespace Meeting

variable {a b : PeerId} {bonds : List Bond}

/-- The connection that the first node has to the second in the end. -/
def firstA (m : Meeting a b bonds) : Option LiveConnection :=
  ((m.atA.run m.inputsA).1.toPeer b).head?

/-- The connection that the second node has to the first in the end. -/
def firstB (m : Meeting a b bonds) : Option LiveConnection :=
  ((m.atB.run m.inputsB).1.toPeer a).head?

/-- Both nodes have the same connection to each other. -/
def Agrees (m : Meeting a b bonds) : Prop :=
  ∃ x ∈ bonds, m.firstA = some x.here ∧ m.firstB = some x.there

/-- Each node closes the connection that the other has to it. -/
def Parts (m : Meeting a b bonds) : Prop :=
  ∃ x ∈ bonds, ∃ y ∈ bonds, m.firstA = some x.here ∧ m.firstB = some y.there ∧
    .close y.here.id ∈ (m.atA.run m.inputsA).2 ∧ .close x.there.id ∈ (m.atB.run m.inputsB).2

theorem leadsA (m : Meeting a b bonds) :
    Leads (m.atA.run m.inputsA).1 b (m.orderA.map (·.here)) (m.atA.run m.inputsA).2 := by
  have hstart : Leads m.atA b [] [] :=
    ⟨by rw [m.strangersA]; rfl, fun l hl => absurd hl List.not_mem_nil⟩
  have hrun := hstart.run m.openA
  rw [m.enteredA, List.nil_append, List.nil_append] at hrun
  exact hrun

theorem leadsB (m : Meeting a b bonds) :
    Leads (m.atB.run m.inputsB).1 a (m.orderB.map (·.there)) (m.atB.run m.inputsB).2 := by
  have hstart : Leads m.atB a [] [] :=
    ⟨by rw [m.strangersB]; rfl, fun l hl => absurd hl List.not_mem_nil⟩
  have hrun := hstart.run m.openB
  rw [m.enteredB, List.nil_append, List.nil_append] at hrun
  exact hrun

theorem firstA_eq (m : Meeting a b bonds) :
    m.firstA = (kept (preferred a b) m.orderA).map (·.here) := by
  have hfirst := m.leadsA.first
  rw [run_self, m.selfA, leading_map] at hfirst
  exact hfirst

theorem firstB_eq (m : Meeting a b bonds) :
    m.firstB = (kept (preferred a b) m.orderB).map (·.there) := by
  have hfirst := m.leadsB.first
  -- both ends know who dialed, so the second node prefers the bonds that the first prefers
  have hagreed : ((fun l : LiveConnection => decide (l.dialer = preferred a b)) ∘ Bond.there) =
      fun x => decide (x.here.dialer = preferred a b) := by
    funext x
    show decide (x.there.dialer = _) = decide (x.here.dialer = _)
    rw [x.agreed]
  rw [run_self, m.selfB, leading_map, preferred_comm, hagreed] at hfirst
  exact hfirst

theorem exists_kept {m : PeerId} {order bonds : List Bond} (hne : bonds ≠ [])
    (perm : order.Perm bonds) : ∃ x ∈ bonds, kept m order = some x := by
  have horder : order ≠ [] := fun hnil => hne (List.nil_perm.1 (hnil ▸ perm))
  obtain ⟨x, hx⟩ := leading_isSome horder
  exact ⟨x, perm.subset (mem_of_leading hx), hx⟩

/-- When the nodes keep different bonds, each closes the one that the other keeps. -/
theorem parts_of_kept {m : Meeting a b bonds} {x y : Bond} (hx : x ∈ bonds) (hy : y ∈ bonds)
    (hkeptA : kept (preferred a b) m.orderA = some x)
    (hkeptB : kept (preferred a b) m.orderB = some y) (hhere : x.here ≠ y.here)
    (hthere : x.there ≠ y.there) : m.Parts := by
  have hfirstA : m.firstA = some x.here := by rw [firstA_eq, hkeptA, Option.map_some]
  have hfirstB : m.firstB = some y.there := by rw [firstB_eq, hkeptB, Option.map_some]
  refine ⟨x, hx, y, hy, hfirstA, hfirstB, ?_, ?_⟩
  · have hmem : y.here ∈ m.orderA.map (·.here) := List.mem_map_of_mem (m.permA.mem_iff.2 hy)
    exact m.leadsA.closes _ hmem fun heq => hhere (Option.some.inj (hfirstA.symm.trans heq))
  · have hmem : x.there ∈ m.orderB.map (·.there) := List.mem_map_of_mem (m.permB.mem_iff.2 hx)
    exact m.leadsB.closes _ hmem fun heq => hthere (Option.some.inj (heq.symm.trans hfirstB))

end Meeting

theorem entries_established {p : PeerId} {c : Connections} (h : c.aborted = [])
    (ls : List LiveConnection) : c.entries p (ls.map (.established p)) = ls := by
  induction ls generalizing c with
  | nil => rfl
  | cons l ls ih =>
    have hl : l.id ∉ c.aborted := by
      rw [h]
      exact List.not_mem_nil
    have hentry : c.entered? p (.established p l) = some l := if_pos ⟨rfl, hl⟩
    have haborted : (c.step (.established p l)).1.aborted = [] := by
      show (c.established p l).1.aborted = []
      rcases c.established_eq p l with ⟨hmem, -⟩ | ⟨-, health, found, -, heq⟩
      · exact absurd hmem hl
      · rw [heq]
        unfold entered
        rw [forgetDial_eq]
        exact h
    rw [List.map_cons, entries, hentry, ih haborted]
    rfl

/-- The meeting of two nodes that are told of nothing but the bonds between them. -/
def Meeting.ofOrders (a b : PeerId) {bonds orderA orderB : List Bond} (permA : orderA.Perm bonds)
    (permB : orderB.Perm bonds) : Meeting a b bonds where
  atA := empty a
  atB := empty b
  inputsA := (orderA.map (·.here)).map (.established b)
  inputsB := (orderB.map (·.there)).map (.established a)
  orderA
  orderB
  selfA := rfl
  selfB := rfl
  strangersA := rfl
  strangersB := rfl
  permA
  permB
  enteredA := entries_established rfl _
  enteredB := entries_established rfl _
  openA id h := by
    obtain ⟨l, -, hl⟩ := List.mem_map.1 h
    cases hl
  openB id h := by
    obtain ⟨l, -, hl⟩ := List.mem_map.1 h
    cases hl

theorem kept_eq_of_filter {m : PeerId} {order bonds : List Bond} {x : Bond} (perm : order.Perm bonds)
    (h : bonds.filter (·.here.dialer = m) = [x]) : kept m order = some x := by
  have hfilter := perm.filter fun x => decide (x.here.dialer = m)
  rw [h] at hfilter
  exact leading_eq_of_filter (List.perm_singleton.1 hfilter)

/-- What is told first is kept, if it is preferred or nothing is. -/
theorem exists_order_kept {m : PeerId} {bonds : List Bond} {x : Bond} (hx : x ∈ bonds)
    (h : x.here.dialer = m ∨ ∀ y ∈ bonds, y.here.dialer ≠ m) :
    ∃ order, order.Perm bonds ∧ kept m order = some x := by
  -- the order that tells of `x` first and of the others as they come
  obtain ⟨before, after, hbonds⟩ := List.append_of_mem hx
  have hperm : (x :: (before ++ after)).Perm bonds := hbonds ▸ List.perm_middle.symm
  refine ⟨x :: (before ++ after), hperm, ?_⟩
  unfold kept leading
  rcases h with h | h
  · rw [List.find?_cons_of_pos (by simpa using h)]
    rfl
  · have hnone : (x :: (before ++ after)).find? (fun y => decide (y.here.dialer = m)) = none := by
      rw [List.find?_eq_none]
      intro y hy
      simpa using h y (hperm.subset hy)
    rw [hnone]
    rfl

/-- Unless just one is preferred, or there is just one, two orders keep different ones. -/
theorem exists_orders {m : PeerId} {bonds : List Bond} (hne : bonds ≠ []) (hnodup : bonds.Nodup)
    (hfilter : (bonds.filter (·.here.dialer = m)).length ≠ 1) (hlength : bonds.length ≠ 1) :
    ∃ orderA orderB, orderA.Perm bonds ∧ orderB.Perm bonds ∧ ∃ x y, x ≠ y ∧
      kept m orderA = some x ∧ kept m orderB = some y := by
  -- two that are kept when they are told of first
  have htwo : ∃ x y, x ≠ y ∧ x ∈ bonds ∧ y ∈ bonds ∧
      (∀ z, z = x ∨ z = y → z.here.dialer = m ∨ ∀ w ∈ bonds, w.here.dialer ≠ m) := by
    have hnodup' := hnodup.filter fun x => decide (x.here.dialer = m)
    cases hp : bonds.filter (fun x => decide (x.here.dialer = m)) with
    | nil =>
      have hnone : ∀ w ∈ bonds, w.here.dialer ≠ m := by
        simpa using List.filter_eq_nil_iff.1 hp
      rcases bonds with _ | ⟨x, _ | ⟨y, rest⟩⟩
      · exact absurd rfl hne
      · exact absurd rfl hlength
      · have hxy : x ≠ y := by
          rintro rfl
          exact (List.nodup_cons.1 hnodup).1 List.mem_cons_self
        exact ⟨x, y, hxy, by simp, by simp, fun _ _ => Or.inr hnone⟩
    | cons x rest =>
      cases rest with
      | nil => exact absurd (by rw [hp]; rfl) hfilter
      | cons y rest =>
        rw [hp] at hnodup'
        have hxy : x ≠ y := by
          rintro rfl
          exact (List.nodup_cons.1 hnodup').1 List.mem_cons_self
        have hmem : ∀ z, z = x ∨ z = y → z ∈ bonds ∧ z.here.dialer = m := by
          intro z hz
          have hz' : z ∈ bonds.filter (fun x => decide (x.here.dialer = m)) := by
            rw [hp]
            rcases hz with rfl | rfl <;> simp
          simpa using List.mem_filter.1 hz'
        exact ⟨x, y, hxy, (hmem x (Or.inl rfl)).1, (hmem y (Or.inr rfl)).1,
          fun z hz => Or.inl (hmem z hz).2⟩
  obtain ⟨x, y, hxy, hx, hy, hfront⟩ := htwo
  obtain ⟨orderA, permA, hkeptA⟩ := exists_order_kept hx (hfront x (Or.inl rfl))
  obtain ⟨orderB, permB, hkeptB⟩ := exists_order_kept hy (hfront y (Or.inr rfl))
  exact ⟨orderA, orderB, permA, permB, x, y, hxy, hkeptA, hkeptB⟩

/-- Two nodes are sure to keep the same connection exactly when the one whose dials are preferred has
dialed just one, or there is just one; and whenever they do not, each closes the one that the other
keeps. -/
theorem agree_iff {a b : PeerId} {bonds : List Bond} (nonempty : bonds ≠ [])
    (idsA : (bonds.map (·.here.id)).Nodup) (idsB : (bonds.map (·.there.id)).Nodup) :
    ((∀ m : Meeting a b bonds, m.Agrees) ↔
      (bonds.filter (·.here.dialer = preferred a b)).length = 1 ∨ bonds.length = 1) ∧
    ∀ m : Meeting a b bonds, m.Agrees ∨ m.Parts := by
  have hereInj : ∀ x ∈ bonds, ∀ y ∈ bonds, x.here = y.here → x = y := fun x hx y hy h =>
    List.inj_on_of_nodup_map idsA hx hy (congrArg LiveConnection.id h)
  have thereInj : ∀ x ∈ bonds, ∀ y ∈ bonds, x.there = y.there → x = y := fun x hx y hy h =>
    List.inj_on_of_nodup_map idsB hx hy (congrArg LiveConnection.id h)
  refine ⟨⟨fun hagree => ?_, fun h m => ?_⟩, fun m => ?_⟩
  -- two orders that keep different bonds make a meeting that does not agree
  · by_contra hnot
    obtain ⟨hfilter, hlength⟩ := not_or.1 hnot
    obtain ⟨orderA, orderB, permA, permB, x, y, hxy, hkeptA, hkeptB⟩ :=
      exists_orders nonempty (idsA.of_map _) hfilter hlength
    obtain ⟨z, hz, hfirstA, hfirstB⟩ := hagree (.ofOrders a b permA permB)
    have hx : x ∈ bonds := permA.subset (mem_of_leading hkeptA)
    have hy : y ∈ bonds := permB.subset (mem_of_leading hkeptB)
    have hA : (kept (preferred a b) orderA).map (·.here) = some z.here :=
      (Meeting.firstA_eq _).symm.trans hfirstA
    have hB : (kept (preferred a b) orderB).map (·.there) = some z.there :=
      (Meeting.firstB_eq _).symm.trans hfirstB
    rw [hkeptA] at hA
    rw [hkeptB] at hB
    have hxz : x = z := hereInj x hx z hz (Option.some.inj hA)
    have hyz : y = z := thereInj y hy z hz (Option.some.inj hB)
    exact hxy (hxz.trans hyz.symm)
  -- the only preferred bond is kept in every order, and so is an only bond
  · have hsame : ∃ x ∈ bonds, kept (preferred a b) m.orderA = some x ∧
        kept (preferred a b) m.orderB = some x := by
      rcases h with hone | hone
      · obtain ⟨x, hx⟩ := List.length_eq_one_iff.1 hone
        have hmem : x ∈ bonds := by
          have hfiltered : x ∈ bonds.filter (·.here.dialer = preferred a b) := by
            rw [hx]
            exact List.mem_singleton_self x
          exact (List.mem_filter.1 hfiltered).1
        exact ⟨x, hmem, kept_eq_of_filter m.permA hx, kept_eq_of_filter m.permB hx⟩
      · obtain ⟨x, hx⟩ := List.length_eq_one_iff.1 hone
        obtain ⟨y, hy, hkeptA⟩ := Meeting.exists_kept (m := preferred a b) nonempty m.permA
        obtain ⟨z, hz, hkeptB⟩ := Meeting.exists_kept (m := preferred a b) nonempty m.permB
        rw [hx, List.mem_singleton] at hy hz
        exact ⟨y, by simp [hx, hy], hkeptA, by rw [hkeptB, hy, hz]⟩
    obtain ⟨x, hx, hkeptA, hkeptB⟩ := hsame
    refine ⟨x, hx, ?_, ?_⟩
    · rw [Meeting.firstA_eq, hkeptA, Option.map_some]
    · rw [Meeting.firstB_eq, hkeptB, Option.map_some]
  -- each node keeps some bond: they agree if it is the same one, and part if it is not
  · obtain ⟨x, hx, hkeptA⟩ := Meeting.exists_kept (m := preferred a b) nonempty m.permA
    obtain ⟨y, hy, hkeptB⟩ := Meeting.exists_kept (m := preferred a b) nonempty m.permB
    by_cases hxy : x = y
    · refine Or.inl ⟨x, hx, ?_, ?_⟩
      · rw [Meeting.firstA_eq, hkeptA, Option.map_some]
      · rw [Meeting.firstB_eq, hkeptB, hxy, Option.map_some]
    · exact Or.inr (Meeting.parts_of_kept hx hy hkeptA hkeptB (fun h => hxy (hereInj x hx y hy h))
        fun h => hxy (thereInj x hx y hy h))

/-- Two nodes of which the same one has dialed twice may part. -/
theorem agree_iff_of_dialed_twice :
    let a : PeerId := ⟨[0]⟩
    let b : PeerId := ⟨[1]⟩
    let bonds : List Bond := [⟨⟨0, [], a⟩, ⟨5, [], a⟩, rfl⟩, ⟨⟨1, [], a⟩, ⟨6, [], a⟩, rfl⟩]
    ¬ ∀ m : Meeting a b bonds, m.Agrees := by
  intro a b bonds hagree
  have hne : bonds ≠ [] := List.cons_ne_nil _ _
  have hidsA : (bonds.map (·.here.id)).Nodup := by decide
  have hidsB : (bonds.map (·.there.id)).Nodup := by decide
  have hcount := (agree_iff hne hidsA hidsB).1.1 hagree
  revert hcount
  decide

end SealedCustody.Connections
