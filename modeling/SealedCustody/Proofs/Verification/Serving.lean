import SealedCustody.Mesh.Exchange
import SealedCustody.Proofs.Custody.Answers
import SealedCustody.Stream.Framing

/-!
# Serving a stream

A program comes to a value if its questions are answered one after the other (`Program.Runs`). The
handler of a stream is such a program: `Serving.Answers` answers what it asks about its own end of the
stream and its own node. A service takes the whole request, responds by a function of the node's custody
and writes the reply, so what it comes to is determined (`Serving.of_serveAndClose`,
`Serving.runs_serveAndClose`).

Whatever a node does it does in steps (`Node.Step`); what no step changes is an invariant of the node.
-/

namespace SealedCustody

/-! ## Runs -/

/-- How questions are answered in some state: with the answer, what is told meanwhile, and the state
after it. -/
abbrev Answering (σ ε : Type) := σ → (q : Query) → q.Answer → List ε → σ → Prop

namespace Program

variable {σ ε α β : Type} {answers : Answering σ ε} {s s' s'' : σ} {es : List ε}

/-- A program comes to a value, its questions answered one after the other. -/
inductive Runs (answers : Answering σ ε) : Program α → σ → List ε → α → σ → Prop
  | done (a : α) (s : σ) : Runs answers (.done a) s [] a s
  | ask {q : Query} {next : q.Answer → Program α} {s s' s'' : σ} {a : q.Answer} {b : α}
      {es es' : List ε} (first : answers s q a es s') (rest : Runs answers (next a) s' es' b s'') :
      Runs answers (.ask q next) s (es ++ es') b s''

theorem Runs.bind {p : Program α} {f : α → Program β} {a : α} {b : β} {es' : List ε}
    (hp : p.Runs answers s es a s') (hf : (f a).Runs answers s' es' b s'') :
    (p.bind f).Runs answers s (es ++ es') b s'' := by
  induction hp with
  | done a s => exact hf
  | ask first rest ih =>
    rw [List.append_assoc]
    exact .ask first (ih hf)

/-- A program that goes on with what another came to runs in two parts. -/
theorem Runs.of_bind {p : Program α} {f : α → Program β} {b : β}
    (h : (p.bind f).Runs answers s es b s'') :
    ∃ a s' es₁ es₂, p.Runs answers s es₁ a s' ∧ (f a).Runs answers s' es₂ b s'' ∧ es = es₁ ++ es₂ := by
  induction p generalizing s es with
  | done a => exact ⟨a, s, [], es, .done a s, h, rfl⟩
  | ask q next ih =>
    cases h with
    | ask first rest =>
      obtain ⟨a, s', es₁, es₂, hp, hf, rfl⟩ := ih _ rest
      exact ⟨a, s', _, es₂, .ask first hp, hf, (List.append_assoc ..).symm⟩

theorem Runs.query {q : Query} {a : q.Answer} (h : answers s q a es s') :
    (Program.query q).Runs answers s es a s' := by
  have hrun : (Program.query q).Runs answers s (es ++ []) a s' := .ask h (.done a s')
  rwa [List.append_nil] at hrun

theorem Runs.of_query {q : Query} {a : q.Answer} (h : (Program.query q).Runs answers s es a s') :
    answers s q a es s' := by
  cases h with
  | ask first rest =>
    cases rest with
    | done => rwa [List.append_nil]

theorem Runs.of_done {a b : α} (h : (Program.done a).Runs answers s es b s') :
    a = b ∧ s = s' ∧ es = [] := by
  cases h with
  | done => exact ⟨rfl, rfl, rfl⟩

theorem Runs.andThen {p : Program (Except Error α)} {f : α → Program (Except Error β)} {a : α}
    {b : Except Error β} {es' : List ε} (hp : p.Runs answers s es (.ok a) s')
    (hf : (f a).Runs answers s' es' b s'') : (p.andThen f).Runs answers s (es ++ es') b s'' :=
  hp.bind hf

/-- A program that only reads what another came to runs as that one did. -/
theorem Runs.bind_done {p : Program α} {f : α → β} {a : α} (hp : p.Runs answers s es a s') :
    (p.bind fun a => .done (f a)).Runs answers s es (f a) s' := by
  have hrun : (p.bind fun a => .done (f a)).Runs answers s (es ++ []) (f a) s' :=
    hp.bind (.done (f a) s')
  rwa [List.append_nil] at hrun

theorem Runs.andThen_done {p : Program (Except Error α)} {f : α → Except Error β} {a : α}
    (hp : p.Runs answers s es (.ok a) s') :
    (p.andThen fun a => .done (f a)).Runs answers s es (f a) s' := by
  have hrun : (p.andThen fun a => .done (f a)).Runs answers s (es ++ []) (f a) s' :=
    hp.andThen (.done (f a) s')
  rwa [List.append_nil] at hrun

/-- A program that goes on unless there is an error ends with the error. -/
theorem Runs.andThen_error {p : Program (Except Error α)} {f : α → Program (Except Error β)} {e : Error}
    (hp : p.Runs answers s es (.error e) s') : (p.andThen f).Runs answers s es (.error e) s' := by
  have hrun : (p.andThen f).Runs answers s (es ++ []) (.error e) s' :=
    Runs.bind hp (.done (Except.error e) s')
  rwa [List.append_nil] at hrun

/-- A program that goes on unless there is an error ends with the error or runs in two parts. -/
theorem Runs.of_andThen {p : Program (Except Error α)} {f : α → Program (Except Error β)}
    {r : Except Error β} (h : (p.andThen f).Runs answers s es r s'') :
    (∃ e, p.Runs answers s es (.error e) s'' ∧ r = .error e) ∨
      ∃ a s' es₁ es₂, p.Runs answers s es₁ (.ok a) s' ∧ (f a).Runs answers s' es₂ r s'' ∧
        es = es₁ ++ es₂ := by
  obtain ⟨result, s', es₁, es₂, hp, hf, rfl⟩ := Runs.of_bind h
  cases result with
  | error e =>
    obtain ⟨rfl, rfl, rfl⟩ := hf.of_done
    exact Or.inl ⟨e, (List.append_nil es₁).symm ▸ hp, rfl⟩
  | ok a => exact Or.inr ⟨a, s', es₁, es₂, hp, hf, rfl⟩

/-- A program that ends without an error had none on the way. -/
theorem Runs.of_andThen_ok {p : Program (Except Error α)} {f : α → Program (Except Error β)} {b : β}
    (h : (p.andThen f).Runs answers s es (.ok b) s'') :
    ∃ a s' es₁ es₂, p.Runs answers s es₁ (.ok a) s' ∧ (f a).Runs answers s' es₂ (.ok b) s'' ∧
      es = es₁ ++ es₂ := by
  rcases h.of_andThen with ⟨e, -, he⟩ | hparts
  · cases he
  · exact hparts

/-- A program that only reads what another came to runs as that one. -/
theorem Runs.of_andThen_done {p : Program (Except Error α)} {f : α → Except Error β}
    {r : Except Error β} (h : (p.andThen fun a => .done (f a)).Runs answers s es r s'') :
    ∃ r', p.Runs answers s es r' s'' := by
  rcases h.of_andThen with ⟨e, hp, -⟩ | ⟨a, s', es₁, es₂, hp, hdone, rfl⟩
  · exact ⟨_, hp⟩
  · obtain ⟨-, rfl, rfl⟩ := hdone.of_done
    exact ⟨_, (List.append_nil es₁).symm ▸ hp⟩

/-- What no answer changes is as before when a program has come to its value. -/
theorem Runs.keeps {I : σ → Prop} {allowed : ε → Prop}
    (hI : ∀ {s q a es s'}, answers s q a es s' → (∀ e ∈ es, allowed e) → I s → I s')
    {p : Program α} {a : α} (h : p.Runs answers s es a s') (hes : ∀ e ∈ es, allowed e) (hs : I s) :
    I s' := by
  induction h with
  | done a s => exact hs
  | ask first rest ih =>
    have hmiddle := hI first (fun e he => hes e (List.mem_append_left _ he)) hs
    exact ih (fun e he => hes e (List.mem_append_right _ he)) hmiddle

end Program

/-! ## Nodes -/

/-- The built-in handlers are there once they were registered where there were none. -/
theorem Handlers.get?_builtin : ∀ e ∈ builtin, (registerAll ∅ builtin).2.get? e.1 = some e.2 := by
  decide

namespace Node

/-- What a node may do at a time, with what it tells of its custody: a service responds, an upload is
sealed, or something that has nothing to do with custody. Handlers may be added, never replaced. -/
inductive Step : Node → List Event → Node → Prop
  | respond (node : Node) (s : Service) (request : List UInt8) :
      Step node (s.respond node.custody request).event.toList
        { node with custody := (s.respond node.custody request).custody }
  | sealUpload (node : Node) (key : EnvelopeKey) (nonce request : List UInt8) :
      Step node (((node.custody.sealUpload key nonce request).1.toOption.map fun upload =>
          Event.dataStored upload.block.hash).toList)
        { node with custody := (node.custody.sealUpload key nonce request).2 }
  | other {node node' : Node} (custody : node'.custody = node.custody)
      (network : node'.network = node.network)
      (handlers : ∀ p h, node.handlers.get? p = some h → node'.handlers.get? p = some h) :
      Step node [] node'

/-- What is true of a node stays true as long as all that it tells is allowed. -/
def Invariant (allowed : Event → Prop) (I : Node → Prop) : Prop :=
  ∀ {node es node'}, Step node es node' → (∀ e ∈ es, allowed e) → I node → I node'

/-- The node has the built-in handlers and a limit on the length of messages. -/
structure Stands (limit : Nat) (node : Node) : Prop where
  builtin : ∀ e ∈ Handlers.builtin, node.handlers.get? e.1 = some e.2
  limit_eq : node.network.maxMessageBytes = limit

theorem invariant_stands (limit : Nat) : Invariant (fun _ => True) (Stands limit) := by
  intro node es node' h _ hnode
  cases h with
  | respond s request => exact ⟨hnode.builtin, hnode.limit_eq⟩
  | sealUpload key nonce request => exact ⟨hnode.builtin, hnode.limit_eq⟩
  | other custody network handlers =>
    refine ⟨fun e he => handlers _ _ (hnode.builtin e he), ?_⟩
    rw [network, hnode.limit_eq]

/-- The record of a user stays as it is until the node tells that another was taken in. -/
theorem invariant_user (userId : String) (record : Option CustodyRecord) :
    Invariant (· ≠ .userEnrolled userId) fun node => node.custody.user? userId = record := by
  intro node es node' h hes hnode
  cases h with
  | respond s request =>
    refine (s.user?_respond node.custody request fun hevent => ?_).trans hnode
    exact hes (.userEnrolled userId) (by rw [hevent]; exact List.mem_singleton_self _) rfl
  | sealUpload key nonce request =>
    show (node.custody.sealUpload key nonce request).2.user? userId = record
    rw [Custody.user?, node.custody.users_sealUpload]
    exact hnode
  | other custody network handlers =>
    show node'.custody.user? userId = record
    rw [custody]
    exact hnode

end Node

/-! ## Serving a stream -/

/-- A question about one's own end of a stream or one's own node. -/
def Query.isLocal (own : StreamEnd) : Query → Bool
  | .write e _ | .finish e | .read e => e = own
  | .serve .. | .sealUpload .. => true
  | _ => false

/-- A node that serves a stream on which the whole request has arrived. -/
structure Serving where
  node : Node
  inbox : List UInt8
  writer : StreamWriter
  written : List UInt8

namespace Serving

/-- The node begins to serve a stream. -/
def start (node : Node) (request : List UInt8) : Serving :=
  ⟨node, request, ⟨node.network.maxMessageBytes, false⟩, []⟩

/-- How the questions of a handler are answered at the end of a stream that is its own. Those that are
not about this end or this node may have any answer. -/
inductive Answers (p : ProtocolId) (own : StreamEnd) : Answering Serving Event
  | read {s : Serving} {r : Except ProtocolFault (List UInt8)} {rest : List UInt8}
      (hread : (StreamReader.start s.writer.limit).feed s.inbox true = (.done r, rest)) :
      Answers p own s (.read own) (r.mapError (.protocol p.text)) [] { s with inbox := rest }
  | write {s : Serving} {payload sent : List UInt8} (hwrite : s.writer.write payload = .ok sent) :
      Answers p own s (.write own payload) (.ok ()) [] { s with written := s.written ++ sent }
  | refuse {s : Serving} {payload : List UInt8} {f : ProtocolFault}
      (hwrite : s.writer.write payload = .error f) :
      Answers p own s (.write own payload) (.error (.protocol p.text f)) [] s
  | finish (s : Serving) :
      Answers p own s (.finish own) (.ok ()) [] { s with writer := s.writer.close }
  | serve (s : Serving) (n : NodeId) (service : Service) (request : List UInt8) :
      Answers p own s (.serve n service request) (service.respond s.node.custody request).reply
        (service.respond s.node.custody request).event.toList
        { s with node := { s.node with
          custody := (service.respond s.node.custody request).custody } }
  | sealUpload (s : Serving) (n : NodeId) (key : EnvelopeKey) (nonce request : List UInt8) :
      Answers p own s (.sealUpload n request) (s.node.custody.sealUpload key nonce request).1
        (((s.node.custody.sealUpload key nonce request).1.toOption.map fun upload =>
          Event.dataStored upload.block.hash).toList)
        { s with node := { s.node with
          custody := (s.node.custody.sealUpload key nonce request).2 } }
  | other {s : Serving} {q : Query} (hq : q.isLocal own = false) (a : q.Answer) :
      Answers p own s q a [] s

/-- Serving a stream changes a node by steps of the node. -/
theorem Answers.keeps {p : ProtocolId} {own : StreamEnd} {allowed : Event → Prop} {I : Node → Prop}
    (hI : Node.Invariant allowed I) {s s' : Serving} {q : Query} {a : q.Answer} {es : List Event}
    (h : Answers p own s q a es s') (hes : ∀ e ∈ es, allowed e) (hs : I s.node) : I s'.node := by
  cases h with
  | serve s n service request => exact hI (.respond s.node service request) hes hs
  | sealUpload s n key nonce request => exact hI (.sealUpload s.node key nonce request) hes hs
  | _ => exact hs

/-! ### Services -/

theorem feed_start (limit : Nat) (inbox : List UInt8) :
    (StreamReader.start limit).feed inbox true =
      (.done (if inbox.length ≤ limit then .ok inbox else .error (.tooLong limit)),
        inbox.drop (limit + 1)) := by
  have htaken : limit < (inbox.take (limit + 1)).length ↔ limit < inbox.length := by
    rw [List.length_take]
    omega
  rw [StreamReader.feed, StreamReader.start]
  dsimp only
  rw [List.length_nil, Nat.sub_zero, List.nil_append]
  by_cases h : inbox.length ≤ limit
  · rw [if_neg (fun hlt => absurd (htaken.1 hlt) (Nat.not_lt.2 h)), if_pos rfl, if_pos h,
      List.take_of_length_le (Nat.le_succ_of_le h)]
  · rw [if_pos (htaken.2 (Nat.lt_of_not_le h)), if_neg h]

theorem write_open {w : StreamWriter} (h : w.closed = false) (payload : List UInt8) :
    w.write payload = if payload.length ≤ w.limit then .ok payload else .error (.tooLong w.limit) := by
  rw [StreamWriter.write, h, if_neg Bool.false_ne_true]
  by_cases hfits : payload.length ≤ w.limit
  · rw [if_neg (Nat.not_lt.2 hfits), if_pos hfits]
  · rw [if_pos (Nat.lt_of_not_le hfits), if_neg hfits]

section

variable {p : ProtocolId} {own : StreamEnd} {s s' : Serving} {es : List Event}

theorem Answers.of_read {r : Except Error (List UInt8)} (h : Answers p own s (.read own) r es s') :
    es = [] ∧ (∃ rest, s' = { s with inbox := rest }) ∧
      r = if s.inbox.length ≤ s.writer.limit then .ok s.inbox
        else .error (.protocol p.text (.tooLong s.writer.limit)) := by
  cases h with
  | read hread =>
    rw [feed_start] at hread
    obtain ⟨hdone, -⟩ := Prod.mk.inj hread
    obtain rfl := StreamReader.Progress.done.inj hdone
    refine ⟨rfl, ⟨_, rfl⟩, ?_⟩
    split <;> rfl
  | other hq => simp [Query.isLocal] at hq

theorem Answers.of_serve {n : NodeId} {service : Service} {request : List UInt8}
    {r : Except Error (List UInt8)} (h : Answers p own s (.serve n service request) r es s') :
    r = (service.respond s.node.custody request).reply ∧
      es = (service.respond s.node.custody request).event.toList ∧
      s' = { s with node := { s.node with
        custody := (service.respond s.node.custody request).custody } } := by
  cases h with
  | serve => exact ⟨rfl, rfl, rfl⟩
  | other hq => cases hq

theorem Answers.of_finish {r : Except Error Unit} (h : Answers p own s (.finish own) r es s') :
    es = [] ∧ s' = { s with writer := s.writer.close } := by
  cases h with
  | finish => exact ⟨rfl, rfl⟩
  | other hq => simp [Query.isLocal] at hq

theorem Answers.of_write {payload : List UInt8} {r : Except Error Unit}
    (h : Answers p own s (.write own payload) r es s') (hopen : s.writer.closed = false) :
    es = [] ∧ s'.node = s.node ∧
      s'.written = s.written ++ if payload.length ≤ s.writer.limit then payload else [] := by
  cases h with
  | write hwrite =>
    rw [write_open hopen] at hwrite
    split at hwrite
    · obtain rfl := Except.ok.inj hwrite
      rw [if_pos ‹_›]
      exact ⟨rfl, rfl, rfl⟩
    · cases hwrite
  | refuse hwrite =>
    rw [write_open hopen] at hwrite
    split at hwrite
    · cases hwrite
    · rw [if_neg ‹_›, List.append_nil]
      exact ⟨rfl, rfl, rfl⟩
  | other hq => simp [Query.isLocal] at hq

/-- What is written of a reply. -/
def writtenOf (limit : Nat) : Except Error (List UInt8) → List UInt8
  | .ok reply => if reply.length ≤ limit then reply else []
  | .error _ => []

theorem writtenOf_nil (limit : Nat) : writtenOf limit (.ok []) = [] := by
  rw [writtenOf, ite_self]

/-- What a service makes of what has arrived on a stream. A request that is too long is not served. -/
def respondOn (p : ProtocolId) (service : Service) (node : Node) (arrived : List UInt8) : Response :=
  if arrived.length ≤ node.network.maxMessageBytes then service.respond node.custody arrived
  else .refused node.custody (.protocol p.text (.tooLong node.network.maxMessageBytes))

/-- A stream was served by a service. -/
structure Served (p : ProtocolId) (service : Service) (node : Node) (arrived : List UInt8)
    (told : List Event) (s : Serving) : Prop where
  told_eq : told = (respondOn p service node arrived).event.toList
  node_eq : s.node = { node with custody := (respondOn p service node arrived).custody }
  written_eq :
    s.written = writtenOf node.network.maxMessageBytes (respondOn p service node arrived).reply

/-- What a reply that was sent has left. -/
theorem of_sendMessage {reply : List UInt8} {r : Except Error Unit}
    (h : (Program.sendMessage own reply).Runs (Answers p own) s es r s')
    (hopen : s.writer.closed = false) :
    es = [] ∧ s'.node = s.node ∧
      s'.written = s.written ++ if reply.length ≤ s.writer.limit then reply else [] := by
  rcases h.of_andThen with ⟨e, hwrite, -⟩ | ⟨u, s₁, es₁, es₂, hwrite, hfinish, rfl⟩
  · exact hwrite.of_query.of_write hopen
  · obtain ⟨rfl, hnode, hwritten⟩ := hwrite.of_query.of_write hopen
    obtain ⟨rfl, rfl⟩ := hfinish.of_query.of_finish
    exact ⟨rfl, hnode, hwritten⟩

/-- The reply of the service that prints has nothing in it. -/
theorem respond_print {c : Custody} {request reply : List UInt8}
    (h : (Service.print.respond c request).reply = .ok reply) : reply = [] := by
  rw [Service.respond] at h
  cases hdecode : ProtocolId.print.decode PrintMessage.format request with
  | error e =>
    rw [hdecode] at h
    cases h
  | ok m =>
    rw [hdecode] at h
    exact (Except.ok.inj h).symm

/-- What serving a stream by a service has come to. -/
theorem of_serve {n : NodeId} {caller : PeerId} {service : Service} {node : Node}
    {arrived : List UInt8} {r : Except Error Unit}
    (h : (Program.serve n caller own (.service service)).Runs (Answers p own)
      (.start node arrived) es r s') : Served p service node arrived es s' := by
  -- The request is too long and is not served, or it is read whole.
  rcases h.of_andThen with ⟨e, hread, -⟩ | ⟨request, s₁, es₁, es₂, hread, hrest, rfl⟩
  · obtain ⟨rfl, ⟨rest, rfl⟩, hresult⟩ := hread.of_query.of_read
    have hlong : ¬arrived.length ≤ node.network.maxMessageBytes := by
      intro hle
      rw [start, if_pos hle] at hresult
      cases hresult
    constructor <;> rw [respondOn, if_neg hlong] <;> rfl
  obtain ⟨rfl, ⟨rest, rfl⟩, hresult⟩ := hread.of_query.of_read
  have hfits : arrived.length ≤ node.network.maxMessageBytes := by
    by_contra hlong
    rw [start, if_neg hlong] at hresult
    cases hresult
  rw [start, if_pos hfits] at hresult
  obtain rfl := Except.ok.inj hresult
  -- The service responds with an error, and nothing is written, or with a reply.
  rcases hrest.of_andThen with ⟨e, hserve, -⟩ | ⟨reply, s₂, es₃, es₄, hserve, hsend, rfl⟩
  · obtain ⟨hreply, rfl, rfl⟩ := hserve.of_query.of_serve
    constructor <;> rw [respondOn, if_pos hfits]
    · rfl
    · rfl
    · exact congrArg (writtenOf node.network.maxMessageBytes) hreply
  obtain ⟨hreply, rfl, rfl⟩ := hserve.of_query.of_serve
  replace hreply : (service.respond node.custody request).reply = .ok reply := hreply.symm
  -- A print is not answered; its reply has nothing in it, so nothing is missing.
  by_cases hprint : service = .print
  · rw [if_pos hprint] at hsend
    obtain ⟨-, rfl, rfl⟩ := hsend.of_done
    subst hprint
    obtain rfl := respond_print hreply
    constructor <;> rw [respondOn, if_pos hfits]
    · exact List.append_nil _
    · rfl
    · rw [hreply]
      exact (writtenOf_nil node.network.maxMessageBytes).symm
  · rw [if_neg hprint] at hsend
    obtain ⟨rfl, hnode, hwritten⟩ := of_sendMessage hsend rfl
    constructor <;> rw [respondOn, if_pos hfits]
    · exact List.append_nil _
    · exact hnode
    · rw [hreply]
      exact hwritten

/-- Closing a stream after it was served changes nothing else. -/
theorem of_serveAndClose {n : NodeId} {caller : PeerId} {service : Service} {node : Node}
    {arrived : List UInt8}
    (h : (Program.serveAndClose n caller own (.service service)).Runs (Answers p own)
      (.start node arrived) es () s') :
    Served p service node arrived es s' ∧ s'.writer.closed = true := by
  obtain ⟨r, s₁, es₁, es₂, hserve, hrest, rfl⟩ := Program.Runs.of_bind h
  obtain ⟨r', s₂, es₃, es₄, hfinish, hrelease, rfl⟩ := Program.Runs.of_bind hrest
  obtain ⟨rfl, rfl⟩ := hfinish.of_query.of_finish
  cases hrelease.of_query with
  | other hq =>
    rw [List.append_nil, List.append_nil]
    obtain ⟨htold, hnode, hwritten⟩ := of_serve hserve
    exact ⟨⟨htold, hnode, hwritten⟩, rfl⟩

theorem runs_sendMessage (p : ProtocolId) (own : StreamEnd) (s : Serving)
    (hopen : s.writer.closed = false) (reply : List UInt8) :
    ∃ r s', (Program.sendMessage own reply).Runs (Answers p own) s [] r s' := by
  by_cases hfits : reply.length ≤ s.writer.limit
  · let sent : Serving := { s with written := s.written ++ reply }
    have hwrite : (Program.query (.write own reply)).Runs (Answers p own) s [] (.ok ()) sent :=
      .query (.write ((write_open hopen reply).trans (if_pos hfits)))
    have hfinish : (Program.query (.finish own)).Runs (Answers p own) sent [] (.ok ())
        { sent with writer := sent.writer.close } := .query (.finish sent)
    exact ⟨_, _, hwrite.andThen hfinish⟩
  · have hwrite : (Program.query (.write own reply)).Runs (Answers p own) s []
        (.error (.protocol p.text (.tooLong s.writer.limit))) s :=
      .query (.refuse ((write_open hopen reply).trans (if_neg hfits)))
    exact ⟨_, _, hwrite.andThen_error⟩

/-- A service comes to its end, whatever it is asked. -/
theorem runs_serveAndClose (p : ProtocolId) (own : StreamEnd) (n : NodeId) (caller : PeerId)
    (service : Service) (node : Node) (arrived : List UInt8) :
    ∃ told s', (Program.serveAndClose n caller own (.service service)).Runs (Answers p own)
      (.start node arrived) told () s' := by
  let asked : Serving :=
    { start node arrived with inbox := arrived.drop (node.network.maxMessageBytes + 1) }
  have hread {r : Except ProtocolFault (List UInt8)}
      (hr : (if arrived.length ≤ node.network.maxMessageBytes then .ok arrived
        else .error (.tooLong node.network.maxMessageBytes)) = r) :
      (Program.query (.read own)).Runs (Answers p own) (.start node arrived) []
        (r.mapError (.protocol p.text)) asked := by
    refine .query (.read ?_)
    rw [start, feed_start, hr]
  obtain ⟨told, r, s₁, hserved⟩ : ∃ told r s₁, (Program.serve n caller own (.service service)).Runs
      (Answers p own) (.start node arrived) told r s₁ := by
    by_cases hfits : arrived.length ≤ node.network.maxMessageBytes
    · let answered : Serving := { asked with
        node := { node with custody := (service.respond node.custody arrived).custody } }
      have hserve : (Program.query (.serve n service arrived)).Runs (Answers p own) asked
          (service.respond node.custody arrived).event.toList
          (service.respond node.custody arrived).reply answered :=
        .query (.serve asked n service arrived)
      have hgoes (r : Except Error (List UInt8))
          (hr : (service.respond node.custody arrived).reply = r) :
          ∃ told r' s₁, (Program.andThen (Program.query (.serve n service arrived)) fun reply =>
            if service = .print then .done (.ok ()) else Program.sendMessage own reply).Runs
              (Answers p own) asked told r' s₁ := by
        rw [hr] at hserve
        cases r with
        | error e => exact ⟨_, _, _, hserve.andThen_error⟩
        | ok reply =>
          by_cases hprint : service = .print
          · exact ⟨_, _, _, hserve.andThen (by rw [if_pos hprint]; exact .done _ _)⟩
          · obtain ⟨r', s₁, hsend⟩ := runs_sendMessage p own answered rfl reply
            exact ⟨_, r', s₁, hserve.andThen (by rw [if_neg hprint]; exact hsend)⟩
      obtain ⟨told, r, s₁, hrest⟩ := hgoes _ rfl
      exact ⟨_, r, s₁, (hread (if_pos hfits)).andThen hrest⟩
    · exact ⟨_, _, _, (hread (if_neg hfits)).andThen_error⟩
  have hfinish : (Program.query (.finish own)).Runs (Answers p own) s₁ [] (.ok ())
      { s₁ with writer := s₁.writer.close } := .query (.finish s₁)
  have hrelease (s : Serving) : (Program.query (.release own)).Runs (Answers p own) s [] () s :=
    .query (Answers.other (q := .release own) rfl ())
  exact ⟨_, _, Program.Runs.bind hserved (Program.Runs.bind hfinish (hrelease _))⟩

end

end Serving

/-- The node has a handler that, whenever a request has arrived on a stream of the protocol, comes to its
end, and then has written just the reply and closed the stream. -/
def Node.Replies (node : Node) (p : ProtocolId) (request reply : List UInt8) : Prop :=
  ∃ h, node.handlers.get? p = some h ∧ ∀ (n : NodeId) (caller : PeerId) (own : StreamEnd),
    (∃ told s', (Program.serveAndClose n caller own h).Runs (Serving.Answers p own)
      (.start node request) told () s') ∧
    ∀ told s', (Program.serveAndClose n caller own h).Runs (Serving.Answers p own)
      (.start node request) told () s' → s'.written = reply ∧ s'.writer.closed = true

/-- A node replies as its service responds. -/
theorem Node.replies_of_service {node : Node} {p : ProtocolId} {service : Service}
    (hhandler : node.handlers.get? p = some (.service service)) {request reply : List UInt8}
    (hrequest : request.length ≤ node.network.maxMessageBytes)
    (hreply : (service.respond node.custody request).reply = .ok reply)
    (hfits : reply.length ≤ node.network.maxMessageBytes) : node.Replies p request reply := by
  refine ⟨.service service, hhandler, fun n caller own =>
    ⟨Serving.runs_serveAndClose p own n caller service node request, fun told s' hrun => ?_⟩⟩
  obtain ⟨hserved, hclosed⟩ := Serving.of_serveAndClose hrun
  refine ⟨hserved.written_eq.trans ?_, hclosed⟩
  rw [Serving.respondOn, if_pos hrequest, hreply, Serving.writtenOf, if_pos hfits]

end SealedCustody
