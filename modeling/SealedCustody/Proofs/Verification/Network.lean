import SealedCustody.Proofs.Verification.Serving

/-!
# A network of nodes

What a node that opens streams meets with, when the network is only known by what it promises: a stream
to a peer ends at the node that has the peer's id, what is written arrives as it was written, and what
comes back is what the handler there wrote. Everything else may happen. Any dial may come to any
connection, every operation may fail, and before each question of a program is answered the nodes do
whatever others have them do (`Network.Step`).

An invariant of nodes holds of a node through every history (`Network.At.of_reaches`). A
request that was answered was served by the node that it was sent to, with just the payload that was
sent (`Network.of_send`).
-/

namespace SealedCustody

/-! ## Requests that are answered -/

namespace Program

variable {σ ε : Type} {answers : Answering σ ε} {node : NodeId} {c : Connection} {p : ProtocolId}
  {payload reply : List UInt8} {es : List ε}

/-- A payload is sent and replied to if each operation on the stream succeeds. -/
theorem runs_send {own : StreamEnd} {s₀ s₁ s₂ s₃ s₄ s₅ : σ}
    (hopen : answers s₀ (.openStream node c.peer p) (.ok own) [] s₁)
    (hwrite : answers s₁ (.write own payload) (.ok ()) [] s₂)
    (hfinish : answers s₂ (.finish own) (.ok ()) [] s₃)
    (hread : answers s₃ (.read own) (.ok reply) es s₄)
    (hrelease : answers s₄ (.release own) () [] s₅) :
    (send node c p payload true).Runs answers s₀ es (.ok ⟨payload.length, some reply⟩) s₅ := by
  let ack : Except Error Ack := .ok ⟨payload.length, some reply⟩
  have hwritten : (query (.write own payload)).Runs answers s₁ [] (.ok ()) s₂ := .query hwrite
  have hfinished : (query (.finish own)).Runs answers s₂ [] (.ok ()) s₃ := .query hfinish
  have hsent : (sendMessage own payload).Runs answers s₁ [] (.ok ()) s₃ :=
    hwritten.andThen hfinished
  have hacked : (andThen (query (.read own)) fun reply =>
      done (Except.ok (⟨payload.length, some reply⟩ : Ack))).Runs answers s₃ (es ++ []) ack s₄ :=
    (Runs.query hread).andThen (.done ack s₄)
  have hlet : (query (.release own)).Runs answers s₄ [] () s₅ := .query hrelease
  have hreleased : (bind (query (.release own)) fun () => done ack).Runs answers s₄ [] ack s₅ :=
    hlet.bind (.done ack s₅)
  have hrun : (send node c p payload true).Runs answers s₀ (es ++ [] ++ []) ack s₅ := by
    have hopened : (query (.openStream node c.peer p)).Runs answers s₀ [] (.ok own) s₁ := .query hopen
    refine hopened.andThen ?_
    show (bind _ _).Runs answers _ (es ++ [] ++ []) _ _
    exact Runs.bind (hsent.andThen hacked) hreleased
  rwa [List.append_nil, List.append_nil] at hrun

/-- A request is answered by what the reply is read as. -/
theorem runs_request {α : Type} {f : Json.Format α} {a : α} {s s' : σ}
    (hsend : (send node c p payload true).Runs answers s es (.ok ⟨payload.length, some reply⟩) s')
    (hdecode : p.decode f reply = .ok a) :
    (request node c p f payload).Runs answers s es (.ok a) s' := by
  have hreceived : (done (p.decode f reply)).Runs answers s' [] (.ok a) s' := by
    rw [hdecode]
    exact .done _ _
  have hrun : (request node c p f payload).Runs answers s (es ++ []) (.ok a) s' :=
    hsend.andThen hreceived
  rwa [List.append_nil] at hrun

end Program

/-! ## Histories -/

/-- Steps one after the other, with all that is told on the way. -/
inductive Reaches {σ ε : Type} (step : σ → List ε → σ → Prop) : σ → List ε → σ → Prop
  | refl (s : σ) : Reaches step s [] s
  | next {s s' s'' : σ} {es es' : List ε} (first : step s es s') (rest : Reaches step s' es' s'') :
      Reaches step s (es ++ es') s''

namespace Reaches

variable {σ ε : Type} {step : σ → List ε → σ → Prop} {s s' s'' : σ} {es es' : List ε}

theorem single (h : step s es s') : Reaches step s es s' := by
  have hreaches : Reaches step s (es ++ []) s' := .next h (.refl s')
  rwa [List.append_nil] at hreaches

theorem trans (h : Reaches step s es s') (h' : Reaches step s' es' s'') :
    Reaches step s (es ++ es') s'' := by
  induction h with
  | refl s => exact h'
  | next first rest ih =>
    rw [List.append_assoc]
    exact .next first (ih h')

theorem mono {step' : σ → List ε → σ → Prop} (hstep : ∀ {s es s'}, step s es s' → step' s es s')
    (h : Reaches step s es s') : Reaches step' s es s' := by
  induction h with
  | refl s => exact .refl s
  | next first rest ih => exact .next (hstep first) ih

/-- What each step keeps is kept. -/
theorem keeps {I : σ → Prop} {allowed : ε → Prop}
    (hI : ∀ {s es s'}, step s es s' → (∀ e ∈ es, allowed e) → I s → I s')
    (h : Reaches step s es s') (hes : ∀ e ∈ es, allowed e) (hs : I s) : I s' := by
  induction h with
  | refl s => exact hs
  | next first rest ih =>
    have hmiddle := hI first (fun e he => hes e (List.mem_append_left _ he)) hs
    exact ih (fun e he => hes e (List.mem_append_right _ he)) hmiddle

end Reaches

/-! ## The network -/

/-- A stream as the node knows it that opened it. -/
structure Conduit where
  peer : PeerId
  protocol : ProtocolId
  writer : StreamWriter
  /-- What has been written. -/
  sent : List UInt8
  /-- What the other end wrote, once it has served the stream. -/
  reply : Option (List UInt8)

/-- The nodes by their ids, and the streams that one of them opened. -/
structure Network where
  nodes : Table PeerId Node
  conduits : Table StreamId Conduit

namespace Network

/-- Among some nodes a stream is served by the node that it leads to, once its request is complete. -/
inductive Serves (nodes : Table PeerId Node) (peer : PeerId) (protocol : ProtocolId)
    (request : List UInt8) : List Event → List UInt8 → Table PeerId Node → Prop
  | intro {node : Node} {h : Handler} {n : NodeId} {caller : PeerId} {own : StreamEnd}
      {told : List Event} {s : Serving} (hnode : nodes.get? peer = some node)
      (hhandler : node.handlers.get? protocol = some h)
      (hrun : (Program.serveAndClose n caller own h).Runs (Serving.Answers protocol own)
        (.start node request) told () s) :
      Serves nodes peer protocol request told s.written (nodes.insert peer s.node)

/-- What others do: a node takes a step, or serves a stream that was opened to it. -/
inductive Step : Network → List (PeerId × Event) → Network → Prop
  | act {net : Network} {peer : PeerId} {node node' : Node} {told : List Event}
      (hnode : net.nodes.get? peer = some node) (h : node.Step told node') :
      Step net (told.map (peer, ·)) { net with nodes := net.nodes.insert peer node' }
  | serve {net : Network} {id : StreamId} {c : Conduit} {told : List Event} {reply : List UInt8}
      {nodes : Table PeerId Node} (hconduit : net.conduits.get? id = some c)
      (hclosed : c.writer.closed = true) (hreply : c.reply = none)
      (hserves : Serves net.nodes c.peer c.protocol c.sent told reply nodes) :
      Step net (told.map (c.peer, ·)) ⟨nodes, net.conduits.insert id { c with reply := some reply }⟩

/-- What comes of a question of the node that opens streams. Only an answer without an error tells
anything about the network. -/
inductive Effect : Network → (q : Query) → q.Answer → Network → Prop
  | dialed (net : Network) (n : NodeId) (a : Address) (timeout : Option Nat)
      (r : Except Error Connection) : Effect net (.dial n a timeout) r net
  | listed (net : Network) (n : NodeId) (r : Except Error (List Connection)) :
      Effect net (.connections n) r net
  | opened {net : Network} {id : StreamId} (n : NodeId) (peer : PeerId) (protocol : ProtocolId)
      (limit : Nat) (hfresh : net.conduits.get? id = none) :
      Effect net (.openStream n peer protocol) (.ok ⟨id, true⟩)
        { net with conduits := net.conduits.insert id ⟨peer, protocol, ⟨limit, false⟩, [], none⟩ }
  | notOpened (net : Network) (n : NodeId) (peer : PeerId) (protocol : ProtocolId) (e : Error) :
      Effect net (.openStream n peer protocol) (.error e) net
  | written {net : Network} {id : StreamId} {c : Conduit} {payload sent : List UInt8}
      (hconduit : net.conduits.get? id = some c) (hwrite : c.writer.write payload = .ok sent) :
      Effect net (.write ⟨id, true⟩ payload) (.ok ())
        { net with conduits := net.conduits.insert id { c with sent := c.sent ++ sent } }
  | notWritten (net : Network) (own : StreamEnd) (payload : List UInt8) (e : Error) :
      Effect net (.write own payload) (.error e) net
  | finished {net : Network} {id : StreamId} {c : Conduit}
      (hconduit : net.conduits.get? id = some c) :
      Effect net (.finish ⟨id, true⟩) (.ok ())
        { net with conduits := net.conduits.insert id { c with writer := c.writer.close } }
  | notFinished (net : Network) (own : StreamEnd) (e : Error) :
      Effect net (.finish own) (.error e) net
  | received {net : Network} {id : StreamId} {c : Conduit} {reply message rest : List UInt8}
      (hconduit : net.conduits.get? id = some c) (hreply : c.reply = some reply)
      (hread : (StreamReader.start c.writer.limit).feed reply true = (.done (.ok message), rest)) :
      Effect net (.read ⟨id, true⟩) (.ok message) net
  | notReceived (net : Network) (own : StreamEnd) (e : Error) :
      Effect net (.read own) (.error e) net
  | released (net : Network) (own : StreamEnd) :
      Effect net (.release own) () { net with conduits := net.conduits.erase own.stream }
  /-- The choice is any of those that there are. -/
  | chosen (net : Network) {among : Nat} (i : Option (Fin among)) (hsome : 0 < among → i.isSome) :
      Effect net (.choose among) i net

/-- Before a question is answered the others go on. -/
def Answers : Answering Network (PeerId × Event) := fun net q a es net'' =>
  ∃ net', Reaches Step net es net' ∧ net'.Effect q a net''

/-- What changes the network: a step of others, or a question that is answered. -/
inductive Change : Network → List (PeerId × Event) → Network → Prop
  | others {net net' : Network} {es : List (PeerId × Event)} (h : Step net es net') : Change net es net'
  | answered {net net' : Network} {q : Query} {a : q.Answer} (h : net.Effect q a net') :
      Change net [] net'

/-! ## Nodes through a history -/

/-- The node with an id is such. -/
def At (peer : PeerId) (I : Node → Prop) (net : Network) : Prop :=
  ∃ node, net.nodes.get? peer = some node ∧ I node

section

variable {allowed : Event → Prop} {I : Node → Prop} {net net' : Network} {peer : PeerId}

theorem At.insert {conduits : Table StreamId Conduit} {other : PeerId} {node : Node}
    (hat : net.At peer I) (hnode : other = peer → I node) :
    At peer I ⟨net.nodes.insert other node, conduits⟩ := by
  obtain ⟨node', hget, hI⟩ := hat
  by_cases hother : other = peer
  · exact ⟨node, by rw [Table.get?_insert, if_pos hother], hnode hother⟩
  · exact ⟨node', by rw [Table.get?_insert, if_neg hother, hget], hI⟩

theorem At.of_get? {node : Node} (hat : net.At peer I) (hget : net.nodes.get? peer = some node) :
    I node := by
  obtain ⟨node', hget', hI⟩ := hat
  exact Option.some.inj (hget'.symm.trans hget) ▸ hI

theorem Serves.keeps (hI : Node.Invariant allowed I) {other : PeerId} {protocol : ProtocolId}
    {request reply : List UInt8} {told : List Event} {nodes : Table PeerId Node}
    {conduits : Table StreamId Conduit} (h : Serves net.nodes other protocol request told reply nodes)
    (htold : other = peer → ∀ e ∈ told, allowed e) (hat : net.At peer I) :
    At peer I ⟨nodes, conduits⟩ := by
  cases h with
  | intro hnode hhandler hrun =>
    refine hat.insert fun hother => ?_
    have hkeep := hrun.keeps (I := fun s => I s.node) (fun h => h.keeps hI) (htold hother)
    exact hkeep (hat.of_get? (hother ▸ hnode))

/-- An invariant of nodes holds of a node after each step, if the node tells only what is allowed. -/
theorem Change.keeps (hI : Node.Invariant allowed I) {es : List (PeerId × Event)}
    (h : Change net es net') (hes : ∀ e ∈ es, e.1 = peer → allowed e.2) (hat : net.At peer I) :
    net'.At peer I := by
  cases h with
  | others h =>
    cases h with
    | act hnode h =>
      refine hat.insert fun hother => ?_
      exact hI h (fun e he => hes _ (List.mem_map_of_mem he) hother) (hat.of_get? (hother ▸ hnode))
    | serve hconduit hclosed hreply hserves =>
      exact hserves.keeps hI (fun hother e he => hes _ (List.mem_map_of_mem he) hother) hat
  | answered h => cases h <;> exact hat

/-- An invariant of nodes holds of a node through a history in which it tells only what is allowed. -/
theorem At.of_reaches (hI : Node.Invariant allowed I) {es : List (PeerId × Event)}
    (hat : net.At peer I) (h : Reaches Change net es net')
    (hes : ∀ e ∈ es, e.1 = peer → allowed e.2) : net'.At peer I := by
  have hstep {s s' : Network} {es : List (PeerId × Event)} (h : Change s es s')
      (hes : ∀ e ∈ es, e.1 = peer → allowed e.2) (hat : s.At peer I) : s'.At peer I :=
    h.keeps hI hes hat
  exact h.keeps hstep hes hat

end

/-- What a program goes through is a history of the network. -/
theorem reaches_of_runs {α : Type} {p : Program α} {net net' : Network} {es : List (PeerId × Event)}
    {a : α} (h : p.Runs Answers net es a net') : Reaches Change net es net' := by
  induction h with
  | done a net => exact .refl net
  | ask first rest ih =>
    obtain ⟨net₁, hothers, heffect⟩ := first
    exact (hothers.mono .others).trans (Reaches.next (.answered heffect) ih)

/-! ## Streams through a history -/

section

variable {net net' : Network} {es : List (PeerId × Event)} {id : StreamId} {c : Conduit}

/-- A stream that is not to be served is left alone by others. -/
theorem conduit_of_reaches (h : Reaches Step net es net') (hconduit : net.conduits.get? id = some c)
    (hquiet : c.writer.closed = true → c.reply ≠ none) : net'.conduits.get? id = some c := by
  induction h with
  | refl net => exact hconduit
  | next first rest ih =>
    refine ih ?_
    cases first with
    | act hnode h => exact hconduit
    | @serve id' c' told reply nodes hconduit' hclosed hreply hserves =>
      have hne : id' ≠ id := by
        rintro rfl
        obtain rfl := Option.some.inj (hconduit'.symm.trans hconduit)
        exact hquiet hclosed hreply
      rw [Table.get?_insert, if_neg hne]
      exact hconduit

/-- A reply that was not there before comes of serving the stream in between. -/
theorem serves_of_reaches (h : Reaches Step net es net') (hconduit : net.conduits.get? id = some c)
    (hnone : c.reply = none) {c' : Conduit} (hconduit' : net'.conduits.get? id = some c')
    {reply : List UInt8} (hreply : c'.reply = some reply) :
    ∃ net₁ net₂ told before after, Reaches Step net before net₁ ∧
      Serves net₁.nodes c.peer c.protocol c.sent told reply net₂.nodes ∧ Reaches Step net₂ after net' ∧
      es = before ++ (told.map (c.peer, ·) ++ after) := by
  induction h with
  | refl net =>
    obtain rfl := Option.some.inj (hconduit.symm.trans hconduit')
    exact nomatch hnone.symm.trans hreply
  | @next net net₁ net' es₁ es₂ first rest ih =>
    -- Either this step serves the stream, or it leaves the stream alone.
    by_cases hsame : net₁.conduits.get? id = some c
    · obtain ⟨net₂, net₃, told, before, after, hbefore, hserves, hafter, rfl⟩ := ih hsame hconduit'
      exact ⟨net₂, net₃, told, es₁ ++ before, after, .next first hbefore, hserves, hafter,
        (List.append_assoc ..).symm⟩
    cases first with
    | act hnode h => exact absurd hconduit hsame
    | @serve id₂ c₂ told reply₂ nodes hconduit₂ hclosed₂ hreply₂ hserves =>
      by_cases hid : id₂ = id
      · subst hid
        obtain rfl := Option.some.inj (hconduit₂.symm.trans hconduit)
        have hlater := conduit_of_reaches rest (c := { c₂ with reply := some reply₂ })
          (by rw [Table.get?_insert, if_pos rfl]) fun _ => Option.some_ne_none reply₂
        obtain rfl := Option.some.inj (hlater.symm.trans hconduit')
        obtain rfl := Option.some.inj hreply
        exact ⟨net, _, told, [], es₂, .refl net, hserves, rest, rfl⟩
      · exact absurd (by rw [Table.get?_insert, if_neg hid, hconduit]) hsame

end

/-! ## Requests -/

section

variable {node : NodeId} {c : Connection} {p : ProtocolId} {net net' : Network}
  {es : List (PeerId × Event)}

theorem of_opened {peer : PeerId} {own : StreamEnd}
    (h : (Program.query (.openStream node peer p)).Runs Answers net es (.ok own) net') :
    Reaches Change net es net' ∧ ∃ id limit, own = ⟨id, true⟩ ∧
      net'.conduits.get? id = some ⟨peer, p, ⟨limit, false⟩, [], none⟩ := by
  refine ⟨reaches_of_runs h, ?_⟩
  obtain ⟨net₁, hothers, heffect⟩ := h.of_query
  cases heffect with
  | opened _ _ _ limit hfresh => exact ⟨_, limit, rfl, by rw [Table.get?_insert, if_pos rfl]⟩

theorem of_written {id : StreamId} {d : Conduit} {payload : List UInt8}
    (h : (Program.query (.write ⟨id, true⟩ payload)).Runs Answers net es (.ok ()) net')
    (hconduit : net.conduits.get? id = some d) (hopen : d.writer.closed = false) :
    Reaches Change net es net' ∧
      net'.conduits.get? id = some { d with sent := d.sent ++ payload } := by
  refine ⟨reaches_of_runs h, ?_⟩
  obtain ⟨net₁, hothers, heffect⟩ := h.of_query
  -- a stream that is still written on is served by nobody
  have hquiet := conduit_of_reaches hothers hconduit fun hclosed => nomatch hclosed.symm.trans hopen
  cases heffect with
  | written hconduit' hwrite =>
    obtain rfl := Option.some.inj (hconduit'.symm.trans hquiet)
    rw [Serving.write_open hopen] at hwrite
    split at hwrite
    · obtain rfl := Except.ok.inj hwrite
      rw [Table.get?_insert, if_pos rfl]
    · cases hwrite

theorem of_finished {id : StreamId} {d : Conduit}
    (h : (Program.query (.finish ⟨id, true⟩)).Runs Answers net es (.ok ()) net')
    (hconduit : net.conduits.get? id = some d) (hopen : d.writer.closed = false) :
    Reaches Change net es net' ∧
      net'.conduits.get? id = some { d with writer := d.writer.close } := by
  refine ⟨reaches_of_runs h, ?_⟩
  obtain ⟨net₁, hothers, heffect⟩ := h.of_query
  have hquiet := conduit_of_reaches hothers hconduit fun hclosed => nomatch hclosed.symm.trans hopen
  cases heffect with
  | finished hconduit' =>
    obtain rfl := Option.some.inj (hconduit'.symm.trans hquiet)
    rw [Table.get?_insert, if_pos rfl]

/-- What is read from a stream that had no reply was written when the stream was served. -/
theorem of_received {id : StreamId} {d : Conduit} {message : List UInt8}
    (h : (Program.query (.read ⟨id, true⟩)).Runs Answers net es (.ok message) net')
    (hconduit : net.conduits.get? id = some d) (hnone : d.reply = none) :
    ∃ net₁ net₂ told before after, Reaches Change net before net₁ ∧
      Serves net₁.nodes d.peer d.protocol d.sent told message net₂.nodes ∧
      Reaches Change net₂ after net' ∧
      es = before ++ (told.map (d.peer, ·) ++ after) := by
  obtain ⟨net₃, hothers, heffect⟩ := h.of_query
  cases heffect with
  | @received id d' reply message rest hconduit' hreply hread =>
    obtain ⟨net₁, net₂, told, before, after, hbefore, hserves, hafter, rfl⟩ :=
      serves_of_reaches hothers hconduit hnone hconduit' hreply
    have hmessage : message = reply := by
      rw [Serving.feed_start] at hread
      obtain ⟨hdone, -⟩ := Prod.mk.inj hread
      split at hdone
      · exact (Except.ok.inj (StreamReader.Progress.done.inj hdone)).symm
      · cases hdone
    exact ⟨net₁, net₂, told, before, after, hbefore.mono .others, hmessage ▸ hserves,
      hafter.mono .others, rfl⟩

/-- A request that was answered was served, with the payload that was sent, by the node that it was sent
to, and the answer is what that node wrote. -/
theorem of_send {payload : List UInt8} {ack : Ack}
    (h : (Program.send node c p payload true).Runs Answers net es (.ok ack) net') :
    ∃ net₁ net₂ told reply before after, Reaches Change net before net₁ ∧
      Serves net₁.nodes c.peer p payload told reply net₂.nodes ∧ Reaches Change net₂ after net' ∧
      es = before ++ (told.map (c.peer, ·) ++ after) ∧ ack.response = some reply := by
  -- The stream is followed from its opening on: fresh, written, finished, and then served by `of_received`,
  -- since it had no reply before.
  obtain ⟨own, net₁, es₁, es₂, hopen, hrest, rfl⟩ := h.of_andThen_ok
  obtain ⟨hopened, id, limit, rfl, hconduit⟩ := of_opened hopen
  obtain ⟨r, net₂, es₃, es₄, hexchange, hrelease, rfl⟩ := Program.Runs.of_bind hrest
  obtain ⟨u, net₃, es₅, es₆, hreleased, hdone, rfl⟩ := Program.Runs.of_bind hrelease
  obtain ⟨rfl, rfl, rfl⟩ := hdone.of_done
  obtain ⟨u', net₄, es₇, es₈, hsent, hreply, rfl⟩ := hexchange.of_andThen_ok
  obtain ⟨u'', net₅, es₉, es₁₀, hwrite, hfinish, rfl⟩ := hsent.of_andThen_ok
  obtain ⟨hwritten, hconduit⟩ := of_written hwrite hconduit rfl
  obtain ⟨hfinished, hconduit⟩ := of_finished hfinish hconduit rfl
  obtain ⟨message, net₆, es₁₁, es₁₂, hread, hdone, rfl⟩ := Program.Runs.of_andThen_ok hreply
  obtain ⟨hack, rfl, rfl⟩ := hdone.of_done
  obtain ⟨net₇, net₈, told, before, after, hbefore, hserves, hafter, rfl⟩ :=
    of_received hread hconduit rfl
  refine ⟨net₇, net₈, told, message, _, _, ((hopened.trans hwritten).trans hfinished).trans hbefore,
    hserves, hafter.trans (reaches_of_runs hreleased), ?_, ?_⟩
  · simp only [List.append_assoc, List.append_nil]
  · rw [← Except.ok.inj hack]

/-- A request that was answered by a message was served, and the message is what was written there. -/
theorem of_request {α : Type} {f : Json.Format α} {payload : List UInt8} {a : α}
    (h : (Program.request node c p f payload).Runs Answers net es (.ok a) net') :
    ∃ net₁ net₂ told reply before after, Reaches Change net before net₁ ∧
      Serves net₁.nodes c.peer p payload told reply net₂.nodes ∧ Reaches Change net₂ after net' ∧
      es = before ++ (told.map (c.peer, ·) ++ after) ∧ p.decode f reply = .ok a := by
  obtain ⟨ack, net₁, es₁, es₂, hsend, hdone, rfl⟩ := h.of_andThen_ok
  obtain ⟨hdecode, rfl, rfl⟩ := hdone.of_done
  obtain ⟨net₂, net₃, told, reply, before, after, hbefore, hserves, hafter, rfl, hresponse⟩ :=
    of_send hsend
  rw [hresponse, Option.getD_some] at hdecode
  exact ⟨net₂, net₃, told, reply, before, after, hbefore, hserves, hafter, List.append_nil _, hdecode⟩

/-- A question that is answered before others have done anything. -/
theorem answers_at_once {q : Query} {a : q.Answer} (h : net.Effect q a net') :
    Answers net q a [] net' := ⟨net, .refl net, h⟩

/-- A stream can be opened, written on and closed, and is then to be served. -/
theorem exists_asked {payload : List UInt8} {id : StreamId} (hfresh : net.conduits.get? id = none)
    {limit : Nat} (hpayload : payload.length ≤ limit) (node : NodeId) (peer : PeerId) (p : ProtocolId) :
    ∃ (opened wrote : Network) (conduits : Table StreamId Conduit),
      net.Effect (.openStream node peer p) (.ok ⟨id, true⟩) opened ∧
      opened.Effect (.write ⟨id, true⟩ payload) (.ok ()) wrote ∧
      wrote.Effect (.finish ⟨id, true⟩) (.ok ()) ⟨net.nodes, conduits⟩ ∧
      conduits.get? id = some ⟨peer, p, ⟨limit, true⟩, payload, none⟩ := by
  let fresh : Conduit := ⟨peer, p, ⟨limit, false⟩, [], none⟩
  let written : Conduit := { fresh with sent := [] ++ payload }
  let opened : Network := ⟨net.nodes, net.conduits.insert id fresh⟩
  let wrote : Network := ⟨net.nodes, opened.conduits.insert id written⟩
  have hwrite : opened.Effect (.write ⟨id, true⟩ payload) (.ok ()) wrote := by
    refine .written (c := fresh) ?_ ?_
    · rw [Table.get?_insert, if_pos rfl]
    · exact (Serving.write_open rfl payload).trans (if_pos hpayload)
  refine ⟨opened, wrote, _, .opened node peer p limit hfresh, hwrite, .finished (c := written) ?_, ?_⟩
  · rw [Table.get?_insert, if_pos rfl]
  · rw [Table.get?_insert, if_pos rfl]
    rfl

/-- A reply within the limit can be read. -/
theorem effect_read {id : StreamId} {d : Conduit} (hconduit : net.conduits.get? id = some d)
    {reply : List UInt8} (hreply : d.reply = some reply) (hfits : reply.length ≤ d.writer.limit) :
    net.Effect (.read ⟨id, true⟩) (.ok reply) net := by
  have hfeed : (StreamReader.start d.writer.limit).feed reply true =
      (.done (.ok reply), reply.drop (d.writer.limit + 1)) := by
    rw [Serving.feed_start, if_pos hfits]
  exact .received hconduit hreply hfeed

/-- A request can be answered if the node that it is for can serve it, and the payload and the reply are
within the limit of the node that asks. The stream is gone afterwards. -/
theorem runs_send {payload reply : List UInt8} {told : List Event} {nodes : Table PeerId Node}
    (hserves : Serves net.nodes c.peer p payload told reply nodes) {id : StreamId}
    (hfresh : net.conduits.get? id = none) {limit : Nat} (hpayload : payload.length ≤ limit)
    (hreply : reply.length ≤ limit) (node : NodeId) :
    ∃ conduits : Table StreamId Conduit, conduits.get? id = none ∧
      (Program.send node c p payload true).Runs Answers net (told.map (c.peer, ·))
        (.ok ⟨payload.length, some reply⟩) ⟨nodes, conduits⟩ := by
  obtain ⟨opened, wrote, conduits, hopen, hwrite, hfinish, hconduit⟩ :=
    exists_asked hfresh hpayload node c.peer p
  let asked : Conduit := ⟨c.peer, p, ⟨limit, true⟩, payload, none⟩
  let replied : Conduit := { asked with reply := some reply }
  let answered : Network := ⟨nodes, conduits.insert id replied⟩
  have hserve : Step ⟨net.nodes, conduits⟩ (told.map (c.peer, ·)) answered :=
    .serve (c := asked) hconduit rfl rfl hserves
  have hread : answered.Effect (.read ⟨id, true⟩) (.ok reply) answered :=
    effect_read (d := replied) (by rw [Table.get?_insert, if_pos rfl]) rfl hreply
  refine ⟨answered.conduits.erase id, by rw [Table.get?_erase, if_pos rfl], ?_⟩
  exact Program.runs_send (answers_at_once hopen) (answers_at_once hwrite)
    (answers_at_once hfinish) ⟨answered, .single hserve, hread⟩
    (answers_at_once (.released answered ⟨id, true⟩))

/-- A request can be answered by what the reply is read as. -/
theorem runs_request {α : Type} {f : Json.Format α} {a : α} {payload reply : List UInt8}
    {told : List Event} {nodes : Table PeerId Node}
    (hserves : Serves net.nodes c.peer p payload told reply nodes) {id : StreamId}
    (hfresh : net.conduits.get? id = none) {limit : Nat} (hpayload : payload.length ≤ limit)
    (hreply : reply.length ≤ limit) (hdecode : p.decode f reply = .ok a) (node : NodeId) :
    ∃ conduits, (Program.request node c p f payload).Runs Answers net (told.map (c.peer, ·))
      (.ok a) ⟨nodes, conduits⟩ := by
  obtain ⟨conduits, -, hsend⟩ := runs_send hserves hfresh hpayload hreply node
  exact ⟨conduits, Program.runs_request hsend hdecode⟩

/-- A node that writes one reply to whatever it is asked serves any request with it, and is as before. -/
theorem serves_fixed {nodes : Table PeerId Node} {peer : PeerId} {host : Node}
    (hhost : nodes.get? peer = some host) {reply : List UInt8}
    (hhandler : host.handlers.get? p = some (.fixed ⟨false, false, some reply⟩))
    (hfits : reply.length ≤ host.network.maxMessageBytes) (request : List UInt8) :
    Serves nodes peer p request [] reply (nodes.insert peer host) := by
  let own : StreamEnd := ⟨0, false⟩
  let asked : Serving := .start host request
  let sent : Serving := { asked with written := [] ++ reply }
  let closed : Serving := { sent with writer := sent.writer.close }
  have hwrite : (Program.query (.write own reply)).Runs (Serving.Answers p own) asked [] (.ok ()) sent :=
    .query (.write ((Serving.write_open rfl reply).trans (if_pos hfits)))
  have hfinish (s : Serving) : (Program.query (.finish own)).Runs (Serving.Answers p own) s [] (.ok ())
      { s with writer := s.writer.close } := .query (.finish s)
  have hrelease (s : Serving) : (Program.query (.release own)).Runs (Serving.Answers p own) s [] () s :=
    .query (Serving.Answers.other (q := .release own) rfl ())
  have hserve : (Program.serve 0 peer own (.fixed ⟨false, false, some reply⟩)).Runs
      (Serving.Answers p own) asked [] (.ok ()) closed := hwrite.andThen (hfinish sent)
  have hrun : (Program.serveAndClose 0 peer own (.fixed ⟨false, false, some reply⟩)).Runs
      (Serving.Answers p own) asked [] () { closed with writer := closed.writer.close } :=
    Program.Runs.bind hserve (Program.Runs.bind (hfinish closed) (hrelease _))
  exact .intro hhost hhandler hrun

end

end Network

end SealedCustody
