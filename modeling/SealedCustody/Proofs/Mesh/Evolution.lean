import SealedCustody.Mesh.Scenario
import SealedCustody.Proofs.Verification.Network

/-!
# Nodes in the mesh

Whatever goes on in the mesh, its nodes change by steps of their own (`World.Evolves`): only
`World.respond` and `World.sealUpload` touch the custody of a node, and nothing touches its limits or the
handlers that it has. So what is an invariant of nodes holds of them through every run
(`World.Evolves.perform`, `World.Evolves.settle`).

The lemmas follow the mesh from its parts up to a run: endpoints, links, streams, the answers to
questions, and the turns in which jobs move on. Each takes a history on by one function of the mesh.
-/

namespace SealedCustody

namespace World

/-- Every node of a world is in another what it has come to by steps of nodes. -/
structure Evolves (w w' : World) : Prop where
  reaches : ∀ {n : NodeId} {node : Node}, w.nodes.get? n = some node →
    ∃ told node', w'.nodes.get? n = some node' ∧ Reaches Node.Step node told node'

namespace Evolves

variable {w w' w'' : World}

theorem refl (w : World) : w.Evolves w where
  reaches := fun {_ node} hnode => ⟨[], node, hnode, .refl node⟩

/-- What is done to anything but the nodes. -/
theorem after (h : w.Evolves w') (hnodes : w''.nodes = w'.nodes) : w.Evolves w'' where
  reaches := fun hnode => hnodes ▸ h.reaches hnode

theorem either {b : Prop} [Decidable b] (h' : w.Evolves w') (h'' : w.Evolves w'') :
    w.Evolves (if b then w' else w'') := by
  split
  · exact h'
  · exact h''

theorem foldl {β : Type} {f : World → β → World}
    (hf : ∀ {w' : World} (b : β), w.Evolves w' → w.Evolves (f w' b)) (h : w.Evolves w')
    (bs : List β) : w.Evolves (bs.foldl f w') := by
  induction bs generalizing w' with
  | nil => exact h
  | cons b bs ih => exact ih (hf b h)

variable (h : w.Evolves w')

include h

/-! ## Single nodes -/

/-- A node takes steps. -/
theorem mapNode {n : NodeId} {f : Node → Node}
    (hf : ∀ node, w'.nodes.get? n = some node → ∃ told, Reaches Node.Step node told (f node)) :
    w.Evolves (w'.mapNode n f) := by
  unfold World.mapNode
  cases hn : w'.nodes.get? n with
  | none => exact h
  | some node =>
    refine ⟨fun {m first} hm => ?_⟩
    -- the node that is changed goes on from where the history has left it
    obtain ⟨told, node', hnode', hreaches⟩ := h.reaches hm
    by_cases hsame : n = m
    · subst hsame
      obtain rfl := Option.some.inj (hn.symm.trans hnode')
      obtain ⟨told', hreaches'⟩ := hf node hn
      exact ⟨told ++ told', f node, by rw [Table.get?_insert, if_pos rfl], hreaches.trans hreaches'⟩
    · exact ⟨told, node', by rw [Table.get?_insert, if_neg hsame, hnode'], hreaches⟩

/-- A change that has nothing to do with custody, limits or handlers. -/
theorem mapNode_other (n : NodeId) {f : Node → Node}
    (hcustody : ∀ node, (f node).custody = node.custody := by intro; rfl)
    (hnetwork : ∀ node, (f node).network = node.network := by intro; rfl)
    (hhandlers : ∀ node, (f node).handlers = node.handlers := by intro; rfl) :
    w.Evolves (w'.mapNode n f) :=
  h.mapNode fun node _ => ⟨[], .single <|
    .other (hcustody node) (hnetwork node) fun _ _ hget => (hhandlers node).symm ▸ hget⟩

theorem carryOut (n : NodeId) (effect : Endpoint.Effect) :
    w.Evolves (World.carryOut n w' effect) := by
  cases effect with
  | emit e => exact h.mapNode_other n
  | _ => exact h.after rfl

theorem onEndpoint (n : NodeId) (f : Node → Endpoint × List Endpoint.Effect) :
    w.Evolves (w'.onEndpoint n f) := by
  unfold World.onEndpoint
  split
  · exact h
  · exact (h.mapNode_other n).foldl (fun effect h => h.carryOut n effect) _

theorem mapLink (l : ConnectionId) (f : Link → Link) : w.Evolves (w'.mapLink l f) := by
  unfold World.mapLink
  split
  · exact h.after rfl
  · exact h

theorem mapStream (s : StreamId) (f : LiveStream → LiveStream) : w.Evolves (w'.mapStream s f) := by
  unfold World.mapStream
  split
  · exact h.after rfl
  · exact h

/-! ## Links -/

theorem wakeOpenings (n : NodeId) (p : PeerId) : w.Evolves (w'.wakeOpenings n p) := by
  unfold World.wakeOpenings
  refine foldl (fun id h => ?_) ?_ _
  · exact h.after rfl
  · exact h.after rfl

theorem seeLink (n : NodeId) (other : Node) (l : LiveConnection) : w.Evolves (w'.seeLink n other l) :=
  (h.onEndpoint n _).wakeOpenings n _

theorem join (dial : ConnectionId) (n m : NodeId) (peer : Option PeerId) (a : Address) :
    w.Evolves (w'.join dial n m peer a) := by
  unfold World.join
  split
  · refine after (seeLink ?_ n _ _) rfl
    exact h.after rfl
  · exact h

theorem dialFailed (n : NodeId) (dial : ConnectionId) (d : FlyingDial) (f : DialFault) :
    w.Evolves (w'.dialFailed n dial d f) := by
  unfold World.dialFailed
  split
  · exact (h.onEndpoint n _).after rfl
  · exact h.onEndpoint n _

theorem reach (n : NodeId) (dial : ConnectionId) : w.Evolves (w'.reach n dial) := by
  unfold World.reach
  split
  · exact h
  split
  · exact h
  split
  · exact h.join ..
  split
  · exact h.after rfl
  · exact h.dialFailed ..

theorem giveUp (n : NodeId) (dial : ConnectionId) : w.Evolves (w'.giveUp n dial) := by
  unfold World.giveUp
  split
  · exact h
  · exact h.dialFailed ..

theorem breakOff (n : NodeId) (dial : ConnectionId) : w.Evolves (w'.breakOff n dial) := by
  unfold World.breakOff
  split
  · exact h
  · exact h.onEndpoint ..

theorem tellDown (l : ConnectionId) (link : Link) (n : NodeId) :
    w.Evolves (World.tellDown l link w' n) := by
  unfold World.tellDown
  split
  · exact h.onEndpoint ..
  · exact h

theorem takeDown (l : ConnectionId) : w.Evolves (w'.takeDown l) := by
  unfold World.takeDown
  split
  · exact h
  · refine foldl (fun n h => h.tellDown l _ n) ?_ _
    exact h.after rfl

theorem welcome (l : ConnectionId) (caller : Address) : w.Evolves (w'.welcome l caller) := by
  unfold World.welcome
  split
  · exact h
  split
  · exact (h.seeLink ..).after rfl
  · exact h.takeDown l

theorem stopTransport (n : NodeId) : w.Evolves (w'.stopTransport n) := by
  unfold World.stopTransport
  split
  · exact h
  · exact (h.onEndpoint n _).mapNode_other n

theorem ping (n : NodeId) (l : ConnectionId) : w.Evolves (w'.ping n l) := by
  unfold World.ping
  split
  · split
    · exact h.after rfl
    · split
      · exact h.onEndpoint ..
      · exact h
  · exact h

theorem pingFailed (n : NodeId) (l : ConnectionId) : w.Evolves (w'.pingFailed n l) := by
  unfold World.pingFailed
  split
  · dsimp only
    split
    · exact (h.onEndpoint n _).after rfl
    · exact (h.mapLink l _).after rfl
  · exact h

/-! ## Streams -/

theorem subscribe (n : NodeId) (node : Node) (p : PeerId) : w.Evolves (w'.subscribe n node p).2 :=
  h.mapNode_other n

theorem connectStream (m : Meeting) (p : ProtocolId) (counts : Bool) (a : Answerer) :
    w.Evolves (w'.connectStream m p counts a).2 := by
  have hdrawn : w.Evolves w'.draw.2 := h.after rfl
  exact (hdrawn.subscribe m.far m.callee m.caller.peerId).after rfl

theorem beginOpening (n : NodeId) (p : PeerId) (protocol : ProtocolId) :
    w.Evolves (w'.beginOpening n p protocol).2 := by
  have hdrawn : w.Evolves w'.draw.2 := h.after rfl
  unfold World.beginOpening
  dsimp only
  split
  · exact hdrawn
  rename_i node hnode
  have hsubscribed := hdrawn.subscribe n node p
  split
  · exact hsubscribed.after rfl
  split
  · refine onEndpoint ?_ n _
    exact hsubscribed.after rfl
  · exact hsubscribed.after rfl

theorem negotiate (id : OpeningId) : w.Evolves (w'.negotiate id) := by
  unfold World.negotiate
  split
  · exact h
  rename_i o ho
  dsimp only
  split
  · exact h.after rfl
  rename_i m hm
  have hlinked := h.mapLink m.link (·.touch w'.now)
  split
  · exact hlinked.after rfl
  · rename_i a ha
    exact (hlinked.connectStream m o.protocol true a).after rfl

theorem openPing (n : NodeId) (l : ConnectionId) : w.Evolves (w'.openPing n l).2 := by
  unfold World.openPing
  split
  · exact h
  split
  · exact h
  · exact ((h.subscribe n _ _).mapLink l _).connectStream ..

theorem write (e : StreamEnd) (payload : List UInt8) : w.Evolves (w'.write e payload).2 := by
  unfold World.write
  split
  · exact h
  dsimp only
  split
  · exact h
  split
  · exact h
  · exact h.mapStream ..

theorem finish (e : StreamEnd) : w.Evolves (w'.finish e).2 := by
  unfold World.finish
  split
  · exact h
  dsimp only
  split
  · exact h
  split
  · exact h.mapStream ..
  · exact (h.mapStream ..).mapStream ..

theorem read? (e : StreamEnd) : w.Evolves (w'.read? e).2 := by
  unfold World.read?
  split
  · exact h
  dsimp only
  split
  · exact h
  split
  · exact h
  · exact h.mapStream ..

theorem readTimedOut (e : StreamEnd) : w.Evolves (w'.readTimedOut e).2 := by
  unfold World.readTimedOut
  split
  · exact h
  · exact h.mapStream ..

theorem readBlock? (e : StreamEnd) (size : Nat) : w.Evolves (w'.readBlock? e size).2 := by
  unfold World.readBlock?
  split
  · exact h
  dsimp only
  split
  · exact h.mapStream ..
  · exact h

theorem release (e : StreamEnd) : w.Evolves (w'.release e) := by
  unfold World.release
  split
  · exact h
  rename_i s hs
  -- whether or not the link is told and the far side ends, this side lets go in between
  have hlink : w.Evolves (if (s.side e.opener).counts then
      w'.mapLink s.link (·.mapEnd (s.side e.opener).node ({ · with since := w'.now })) else w') :=
    either (h.mapLink ..) h
  have hside := hlink.mapStream e.stream (·.mapSide e.opener ({ · with held := false }))
  have hfar := hside.mapStream e.stream (·.mapSide (!e.opener) ({ · with ended := true }))
  exact either (either hside hfar) (after (either hside hfar) rfl)

/-! ## Questions -/

theorem beginDial (n : NodeId) (a : Address) (timeout : Option Nat) :
    w.Evolves (w'.beginDial n a timeout).2 := by
  unfold World.beginDial
  split
  · exact h
  · refine onEndpoint ?_ n _
    exact h.after rfl

theorem leaveDial (n : NodeId) (a : Address) (timeout : Option Nat) (caller : CallerId) :
    w.Evolves (w'.leaveDial n a timeout caller).2 := by
  unfold World.leaveDial
  dsimp only
  split
  · exact (h.onEndpoint n _).after rfl
  · exact h.after rfl

theorem takeOpening (id : OpeningId) : w.Evolves (w'.takeOpening id).2 := by
  unfold World.takeOpening
  split
  · exact h.after rfl
  · exact h

/-- A service responds by a step of its node, and the node says so. -/
theorem respond (n : NodeId) (s : Service) (request : List UInt8) :
    w.Evolves (w'.respond n s request).2 := by
  unfold World.respond
  split
  · exact h
  rename_i node hnode
  have hcustody : w.Evolves (w'.mapNode n
      ({ · with custody := (s.respond node.custody request).custody })) := by
    refine h.mapNode fun node' hnode' => ?_
    obtain rfl := Option.some.inj (hnode.symm.trans hnode')
    exact ⟨_, .single (.respond node s request)⟩
  dsimp only
  split
  · exact hcustody.mapNode_other n
  · exact hcustody

/-- An upload is sealed by a step of its node, and the node says so. -/
theorem sealUpload (n : NodeId) (request : List UInt8) : w.Evolves (w'.sealUpload n request).2 := by
  unfold World.sealUpload
  split
  · exact h
  rename_i node hnode
  have hdrawn : w.Evolves w'.drawKey.2 := h.after rfl
  have hcustody : w.Evolves (w'.drawKey.2.mapNode n
      ({ · with custody := (node.custody.sealUpload w'.drawKey.1 nonce request).2 })) := by
    refine hdrawn.mapNode fun node' hnode' => ?_
    obtain rfl := Option.some.inj (hnode.symm.trans hnode')
    exact ⟨_, .single (.sealUpload node w'.drawKey.1 nonce request)⟩
  dsimp only
  split
  · exact hcustody.mapNode_other n
  · exact hcustody

theorem closeConnection (n : NodeId) (id : ConnectionId) : w.Evolves (w'.closeConnection n id).2 := by
  unfold World.closeConnection
  split
  · exact h
  · exact h.onEndpoint ..

theorem pose (q : Query) : w.Evolves (w'.pose q).2 := by
  cases q with
  | dial n a timeout => exact h.beginDial ..
  | openStream n p protocol => exact h.beginOpening ..
  | openPing n l => exact h.openPing ..
  | write e payload => exact h.write ..
  | finish e => exact h.finish ..
  | read e =>
    have hread := h.read? e
    unfold World.pose
    dsimp only
    split <;> (rename_i hresult; rw [hresult] at hread)
    · exact hread
    · -- a read on a stream without a link comes to nothing at once
      split
      · exact hread.readTimedOut e
      · exact hread
  | pingFailed n l => exact h.pingFailed ..
  | release e => exact h.release ..
  | close n id => exact h.closeConnection ..
  | serve n s request => exact h.respond ..
  | sealUpload n request => exact h.sealUpload ..
  | readBlock | awaitPong | connections | meet | sleep | choose | never => exact h

theorem poll (q : Query) (wait : Wait) : w.Evolves (w'.poll q wait).2 := by
  cases q with
  | dial => exact h.after rfl
  | openStream => exact h.takeOpening ..
  | read e => exact h.read? ..
  | readBlock e size => exact h.readBlock? ..
  | _ => exact h

theorem expire (q : Query) (wait : Wait) : w.Evolves (w'.expire q wait).2 := by
  cases q with
  | dial n a timeout => exact h.leaveDial n a timeout wait.ticket
  | openStream => exact h.after rfl
  | read e => exact h.readTimedOut ..
  | _ => exact h

theorem answer? (q : Query) (wait : Wait) : w.Evolves (w'.answer? q wait).2 := by
  unfold World.answer?
  split
  · exact h.expire ..
  · exact h.poll ..

/-! ## Jobs -/

section

variable {α : Type}

/-- What a program does until it has to wait, question by question. -/
theorem begin (p : Program α) : w.Evolves (World.begin p w').2 := by
  induction p generalizing w' with
  | done a => exact h
  | ask q next ih =>
    have hpose := h.pose q
    unfold World.begin
    split
    · rename_i hresult
      rw [hresult] at hpose
      exact ih _ hpose
    · rename_i wait w₁ hresult
      rw [hresult] at hpose
      have hanswer := hpose.answer? q wait
      split <;> (rename_i hresult; rw [hresult] at hanswer)
      · exact ih _ hanswer
      · exact hanswer

theorem resume (j : Job α) : w.Evolves (w'.resume j).2.2 := by
  cases j with
  | finished a => exact h
  | ready p => exact h.begin p
  | blocked q wait next =>
    have hanswer := h.answer? q wait
    unfold World.resume
    dsimp only
    split <;> (rename_i hresult; rw [hresult] at hanswer)
    · exact hanswer.begin _
    · exact hanswer

theorem resumeAll (jobs : List (Job α)) : w.Evolves (w'.resumeAll jobs).2.2 := by
  induction jobs generalizing w' with
  | nil => exact h
  | cons j jobs ih => exact ih (h.resume j)

theorem resumeTasks : w.Evolves w'.resumeTasks.2 := by
  have hidle : w.Evolves { w' with tasks := [] } := h.after rfl
  exact (hidle.resumeAll w'.tasks).after rfl

theorem resumeKeeper (k : Keeper) : w.Evolves (w'.resumeKeeper k).2.2 := by
  unfold World.resumeKeeper
  split
  · exact h
  split
  · exact h
  split
  · rename_i job hwork
    have hresume := h.resume job
    split <;> (rename_i hresult; rw [hresult] at hresume; exact hresume)
  · split <;> exact h

theorem foldl_resumeKeeper (ks done : List Keeper) (moved : Bool) : w.Evolves
    (ks.foldl (fun (moved, ks, w) k =>
      let (m, k, w) := w.resumeKeeper k
      (moved || m, ks ++ [k], w)) (moved, done, w')).2.2 := by
  induction ks generalizing done moved w' with
  | nil => exact h
  | cons k ks ih => exact ih (h.resumeKeeper k) _ _

theorem resumeKeepers : w.Evolves w'.resumeKeepers.2 :=
  (h.foldl_resumeKeeper w'.keepers [] false).after rfl

theorem appear (n : NodeId) (a : Address) : w.Evolves (w'.appear n a) := by
  refine h.mapNode_other n ?_ ?_ ?_ <;> (intro node; dsimp only; split <;> rfl)

theorem happen (e : Happening) : w.Evolves (w'.happen e) := by
  cases e with
  | reach => exact h.reach ..
  | welcome => exact h.welcome ..
  | tooLate => exact h.giveUp ..
  | brokenOff => exact h.breakOff ..
  | down => exact h.takeDown ..
  | negotiate => exact h.negotiate ..
  | ping => exact h.ping ..
  | appear => exact h.appear ..
  | stop => exact h.stopTransport ..

theorem pass (jobs : List (Job α)) : w.Evolves (w'.pass jobs).2.2 :=
  (h.resumeTasks.resumeAll jobs).resumeKeepers

theorem doDue? {isDue : Nat × Happening → Bool} (hdue : w'.doDue? isDue = some w'') :
    w.Evolves w'' := by
  unfold World.doDue? at hdue
  split at hdue
  · obtain rfl := Option.some.inj hdue
    refine happen ?_ _
    exact h.after rfl
  · obtain ⟨l, -, rfl⟩ := Option.map_eq_some_iff.1 hdue
    exact h.takeDown l

/-! ## Runs -/

/-- The turns of a run, one after the other. -/
theorem advance (turns : Nat) (jobs : List (Job α)) : w.Evolves (World.advance turns jobs w').2 := by
  induction turns generalizing jobs w' with
  | zero => exact h
  | succ turns ih =>
    have hpass := h.pass jobs
    unfold World.advance
    split
    · exact h
    split <;> (rename_i jobs₁ w₁ hresult; rw [hresult] at hpass)
    · exact ih hpass jobs₁
    split
    · exact hpass
    split
    · refine ih ?_ jobs₁
      exact hpass.after rfl
    refine ih ?_ jobs₁
    cases hdue : w₁.doDue? fun e => e.1 ≤ w₁.now with
    | none => exact hpass
    | some w₂ => exact hpass.doDue? hdue

theorem complete (jobs : List (Job α)) : w.Evolves (w'.complete jobs).2 := h.advance turnLimit jobs

theorem perform (p : Program α) : w.Evolves (w'.perform p).2 := h.complete [.ready p]

theorem launch (ps : List (Program α)) : w.Evolves (w'.launch ps).2 := by
  induction ps generalizing w' with
  | nil => exact h
  | cons p ps ih => exact ih (h.begin p)

/-- Programs that run at once. -/
theorem performAll (ps : List (Program α)) : w.Evolves (w'.performAll ps).2 :=
  (h.launch ps).complete _

end

theorem settleIn (turns : Nat) : w.Evolves (World.settleIn turns w') := by
  induction turns generalizing w' with
  | zero => exact h
  | succ turns ih =>
    have hpass := h.pass ([] : List (Job Unit))
    unfold World.settleIn
    split <;> (rename_i w₁ hresult; rw [hresult] at hpass)
    · exact ih hpass
    split
    · rename_i w₂ hdue
      exact ih (hpass.doDue? hdue)
    · exact hpass

theorem settle : w.Evolves w'.settle := by
  unfold World.settle
  generalize turnLimit = turns
  exact (h.settleIn turns).after rfl

/-! ## Nodes that stop, and the interface -/

theorem stop (n : NodeId) : w.Evolves (w'.stop n) := by
  refine stopTransport (h.mapNode_other n ?_ ?_ ?_) n <;>
    (intro node; unfold announceStop; split <;> rfl)

theorem forsake (n : NodeId) : w.Evolves (w'.forsake n) := by
  unfold World.forsake
  split
  · exact h
  split
  · exact h
  · exact h.stopTransport n

theorem setInterface (up : Bool) : w.Evolves (w'.setInterface up) := by
  unfold World.setInterface
  split
  · exact h
  refine foldl (fun e h => ?_) ?_ _
  · split
    · exact foldl (fun a h => h.appear e.1 a) h _
    · exact h.mapNode_other e.1
  · exact h.after rfl

/-- What is an invariant of nodes is true of a node that it was true of before. -/
theorem keeps {I : Node → Prop} (hI : Node.Invariant (fun _ => True) I) {n : NodeId} {node : Node}
    (hnode : w.nodes.get? n = some node) (hholds : I node) :
    ∃ node', w'.nodes.get? n = some node' ∧ I node' := by
  obtain ⟨told, node', hnode', hreaches⟩ := h.reaches hnode
  exact ⟨node', hnode', hreaches.keeps hI (fun _ _ => trivial) hholds⟩

end Evolves

end World

end SealedCustody
