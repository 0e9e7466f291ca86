import SealedCustody.Proofs.Custody.Offers

/-!
# An upload receipt retrieves the payload

A node that is sent a payload seals it under a fresh key and nonce, keeps the envelope, offers a copy to
another node and answers with the hash of the envelope and the key. The handler runs at its end of the
stream and among other nodes (`Exchange`): what it asks about its own end and its own custody is answered
as for any handler (`Serving.Answers`), what it asks about other nodes as for an offer (`Network.Fares`).

An answer that is read as a receipt was written after the envelope had been kept, and the payload is
inside it (`Exchange.upload_retrievable`).
-/

namespace SealedCustody

open Json

/-! ## Sealing -/

/-- An upload is sealed under a key and a nonce, and kept. -/
theorem Custody.sealUpload_eq {request payload : List UInt8} {m : UploadRequest}
    (hrequest : ProtocolId.upload.decode UploadRequest.format request = .ok m)
    (hpayload : Base64.decodeTrimmed? m.data = some payload) (c : Custody) (key : EnvelopeKey)
    (nonce : List UInt8) :
    let envelope := Envelope.sealWith key nonce payload
    c.sealUpload key nonce request =
      (.ok ⟨.ofEnvelope envelope, ⟨contentHash envelope, key.toBase64⟩⟩,
        { c with blocks := c.blocks.insert (contentHash envelope) envelope }) := by
  intro envelope
  have hplaintext : m.plaintext = .ok payload := by
    rw [UploadRequest.plaintext, hpayload]
  rw [sealUpload, hrequest]
  dsimp only
  rw [hplaintext]
  dsimp only
  rw [putBlock, octetsOf_ofEnvelope]
  dsimp only
  rw [show (DataBlock.ofEnvelope envelope).hash = contentHash envelope from rfl,
    asciiLower_contentHash]

/-! ## Exchanges -/

/-- A node that serves a stream, and the other nodes with the streams that it opened meanwhile. -/
structure Exchange where
  serving : Serving
  others : Network

namespace Exchange

/-- The end of a stream at the node that did not open it. -/
abbrev ownEnd (stream : StreamId) : StreamEnd := ⟨stream, false⟩

/-- What comes of a question of the handler of uploads. -/
inductive Effect (stream : StreamId) : Exchange → (q : Query) → q.Answer → Exchange → Prop
  | own {x : Exchange} {q : Query} {a : q.Answer} {told : List Event} {s : Serving}
      (hlocal : q.isLocal (ownEnd stream) = true) (hq : ∀ n request, q ≠ .sealUpload n request)
      (h : Serving.Answers .upload (ownEnd stream) x.serving q a told s) :
      Effect stream x q a { x with serving := s }
  /-- The key is any key, and the nonce any nonce of the right size. -/
  | sealed (x : Exchange) (n : NodeId) (key : EnvelopeKey) {nonce : List UInt8} (request : List UInt8)
      (hnonce : nonce.length = Envelope.nonceSize) :
      Effect stream x (.sealUpload n request) (x.serving.node.custody.sealUpload key nonce request).1
        { x with serving := { x.serving with node := { x.serving.node with
          custody := (x.serving.node.custody.sealUpload key nonce request).2 } } }
  | others {x : Exchange} {q : Query} {a : q.Answer} {net : Network}
      (hremote : q.isLocal (ownEnd stream) = false) (h : x.others.Fares q a net) :
      Effect stream x q a { x with others := net }

/-- Before a question is answered the streams to other nodes go on. -/
def Answers (stream : StreamId) : Answering Exchange (PeerId × Event) := fun x q a es x' =>
  ∃ net, Reaches Network.Attend x.others es net ∧ Effect stream { x with others := net } q a x'

section

variable {stream : StreamId} {x x' : Exchange} {es : List (PeerId × Event)}

theorem Answers.of_own {q : Query} {a : q.Answer} (h : Answers stream x q a es x')
    (hlocal : q.isLocal (ownEnd stream) = true) (hq : ∀ n request, q ≠ .sealUpload n request) :
    Reaches Network.Attend x.others es x'.others ∧
      ∃ told, Serving.Answers .upload (ownEnd stream) x.serving q a told x'.serving := by
  obtain ⟨net, hothers, heffect⟩ := h
  cases heffect with
  | own hlocal' hq' h => exact ⟨hothers, _, h⟩
  | sealed n key request hnonce => exact absurd rfl (hq n request)
  | others hremote => exact nomatch hlocal.symm.trans hremote

theorem Answers.of_sealUpload {n : NodeId} {request : List UInt8} {r : Except Error SealedUpload}
    (h : Answers stream x (.sealUpload n request) r es x') :
    Reaches Network.Attend x.others es x'.others ∧
      ∃ (key : EnvelopeKey) (nonce : List UInt8), nonce.length = Envelope.nonceSize ∧
        r = (x.serving.node.custody.sealUpload key nonce request).1 ∧
        x'.serving = { x.serving with node := { x.serving.node with
          custody := (x.serving.node.custody.sealUpload key nonce request).2 } } := by
  obtain ⟨net, hothers, heffect⟩ := h
  cases heffect with
  | own hlocal hq => exact absurd rfl (hq n request)
  | sealed n key request hnonce => exact ⟨hothers, key, _, hnonce, rfl, rfl⟩
  | others hremote => cases hremote

theorem Answers.of_others {q : Query} {a : q.Answer} (h : Answers stream x q a es x')
    (hremote : q.isLocal (ownEnd stream) = false) :
    x'.serving = x.serving ∧
      ∃ net, Reaches Network.Attend x.others es net ∧ net.Fares q a x'.others := by
  obtain ⟨net, hothers, heffect⟩ := h
  cases heffect with
  | own hlocal => exact nomatch hlocal.symm.trans hremote
  | sealed => cases hremote
  | others hremote' h => exact ⟨rfl, net, hothers, h⟩

/-! ### The offer -/

variable {uploader : PeerId} {envelope : List UInt8} {nodes : Table PeerId Node} {id : StreamId}
  {n : NodeId} {c : Connection}

/-- A stream on which nothing was written yet. -/
def fresh (c : Connection) (limit : Nat) : Conduit := ⟨c.peer, .store, ⟨limit, false⟩, [], none⟩

/-- Whether or not the block could be written on a fresh stream, an offer is what is left. -/
theorem of_sendOffer {limit : Nat} (hpeer : c.peer ≠ uploader)
    (hfresh : x.others.Alone nodes id (fresh c limit)) {r : Except Error Unit}
    (h : (Program.sendMessage ⟨id, true⟩ (DataBlock.offer envelope)).Runs (Answers stream) x es r x') :
    x'.serving = x.serving ∧ x'.others.Offered uploader envelope nodes := by
  rcases h.of_andThen with ⟨e, hwrite, -⟩ | ⟨u, x₁, es₁, es₂, hwrite, hfinish, rfl⟩
  · -- The write has failed, and may have written the block.
    obtain ⟨hserving, net, hothers, hfares⟩ := hwrite.of_query.of_others (by simp [Query.isLocal])
    obtain rfl := hfresh.eq_of_reaches rfl hothers
    refine ⟨hserving, ?_⟩
    rcases hfresh.of_write rfl hfares with ⟨hsame, -⟩ | hwritten
    · rw [hsame]
      exact hfresh.offered hpeer rfl (Or.inr ⟨rfl, rfl⟩) rfl
    · exact hwritten.offered hpeer rfl (Or.inl rfl) rfl
  · obtain ⟨hserving, net, hothers, hfares⟩ := hwrite.of_query.of_others (by simp [Query.isLocal])
    obtain rfl := hfresh.eq_of_reaches rfl hothers
    rcases hfresh.of_write rfl hfares with ⟨-, e, he⟩ | hwritten
    · cases he
    obtain ⟨hserving', net', hothers', hfares'⟩ := hfinish.of_query.of_others (by simp [Query.isLocal])
    obtain rfl := hwritten.eq_of_reaches rfl hothers'
    refine ⟨hserving'.trans hserving, ?_⟩
    -- The stream is closed or is not, and the block is on it.
    rcases hwritten.of_finish hfares' with hsame | hclosed
    · rw [hsame]
      exact hwritten.offered hpeer rfl (Or.inl rfl) rfl
    · exact hclosed.offered hpeer rfl (Or.inl rfl) rfl

/-- Whatever comes of a request that offers a block, an offer is what is left. -/
theorem of_offer (hpeers : ∀ peer node, nodes.get? peer = some node → ∃ limit, node.Stands limit)
    (hpeer : c.peer ≠ uploader) (hidle : x.others.Idle nodes) {r : Except Error Ack}
    (h : (Program.send n c .store (DataBlock.offer envelope) true).Runs (Answers stream) x es r x') :
    x'.serving = x.serving ∧ x'.others.Offered uploader envelope nodes := by
  rcases h.of_andThen with ⟨e, hopen, -⟩ | ⟨own, x₁, es₁, es₂, hopen, hrest, rfl⟩
  · obtain ⟨hserving, net, hothers, hfares⟩ := hopen.of_query.of_others rfl
    obtain rfl := hidle.eq_of_reaches hothers
    rcases hidle.of_openStream hfares with ⟨hidle', -⟩ | ⟨id, limit, hopened, -⟩
    · exact ⟨hserving, hidle'.offered⟩
    · cases hopened
  · obtain ⟨hserving, net, hothers, hfares⟩ := hopen.of_query.of_others rfl
    obtain rfl := hidle.eq_of_reaches hothers
    rcases hidle.of_openStream hfares with ⟨-, e, he⟩ | ⟨id, limit, hopened, hfresh⟩
    · cases he
    cases hopened
    obtain ⟨r', x₂, es₃, es₄, hexchange, hrelease, rfl⟩ := Program.Runs.of_bind hrest
    obtain ⟨u, x₃, es₅, es₆, hreleased, hdone, rfl⟩ := Program.Runs.of_bind hrelease
    obtain ⟨-, rfl, -⟩ := hdone.of_done
    have hoffered : x₂.serving = x₁.serving ∧ x₂.others.Offered uploader envelope nodes := by
      rcases hexchange.of_andThen with ⟨e, hsend, -⟩ | ⟨u', x₄, es₇, es₈, hsend, hreply, rfl⟩
      · exact of_sendOffer hpeer hfresh hsend
      · obtain ⟨hserving₄, hoffered⟩ := of_sendOffer hpeer hfresh hsend
        obtain ⟨reply, hread⟩ := Program.Runs.of_andThen_done hreply
        obtain ⟨hserving₂, net', hothers', hfares'⟩ :=
          hread.of_query.of_others (by simp [Query.isLocal])
        rw [hfares'.eq_of_read]
        exact ⟨hserving₂.trans hserving₄, hoffered.reaches hpeers hothers'⟩
    obtain ⟨hserving₃, net', hothers', hfares'⟩ := hreleased.of_query.of_others rfl
    rw [hfares'.eq_of_release]
    exact ⟨hserving₃.trans (hoffered.1.trans hserving), hoffered.2.reaches hpeers hothers'⟩

/-- A block is offered to one connected peer that is not the uploader, whichever is chosen. -/
theorem of_replicate (hpeers : ∀ peer node, nodes.get? peer = some node → ∃ limit, node.Stands limit)
    (hidle : x.others.Idle nodes)
    (h : (Program.replicate n uploader (.ofEnvelope envelope)).Runs (Answers stream) x es () x') :
    x'.serving = x.serving ∧ x'.others.Offered uploader envelope nodes := by
  obtain ⟨r, x₁, es₁, es₂, hlist, hrest, rfl⟩ := Program.Runs.of_bind h
  obtain ⟨hserving, net, hothers, hfares⟩ := hlist.of_query.of_others rfl
  obtain rfl := hidle.eq_of_reaches hothers
  have hidle₁ : x₁.others.Idle nodes := hfares.eq_of_connections ▸ hidle
  cases r with
  | error e =>
    obtain ⟨-, rfl, -⟩ := hrest.of_done
    exact ⟨hserving, hidle₁.offered⟩
  | ok connections =>
    obtain ⟨i, x₂, es₃, es₄, hchoose, hasked, rfl⟩ := Program.Runs.of_bind hrest
    obtain ⟨hserving₂, net₂, hothers₂, hfares₂⟩ := hchoose.of_query.of_others rfl
    obtain rfl := hidle₁.eq_of_reaches hothers₂
    have hidle₂ : x₂.others.Idle nodes := hfares₂.eq_of_choose ▸ hidle₁
    cases i with
    | none =>
      obtain ⟨-, rfl, -⟩ := hasked.of_done
      exact ⟨hserving₂.trans hserving, hidle₂.offered⟩
    | some i =>
      have hpeer := (List.mem_filter.1 (List.get_mem (connections.filter (·.peer ≠ uploader)) i)).2
      obtain ⟨answer, x₃, es₅, es₆, hrequest, hdone, rfl⟩ := Program.Runs.of_bind hasked
      obtain ⟨-, rfl, -⟩ := hdone.of_done
      obtain ⟨ack, hsend⟩ := Program.Runs.of_andThen_done hrequest
      obtain ⟨hserving₃, hoffered⟩ := of_offer hpeers (of_decide_eq_true hpeer) hidle₂ hsend
      exact ⟨hserving₃.trans (hserving₂.trans hserving), hoffered⟩

/-! ### The upload -/

/-- What the handler has written of its reply, while the streams to other nodes went on. -/
theorem of_sendReply {reply : List UInt8} {r : Except Error Unit}
    (h : (Program.sendMessage (ownEnd stream) reply).Runs (Answers stream) x es r x')
    (hopen : x.serving.writer.closed = false) :
    Reaches Network.Attend x.others es x'.others ∧ x'.serving.node = x.serving.node ∧
      (x'.serving.written = x.serving.written ++ reply ∨
        x'.serving.written = x.serving.written) := by
  have hwritten {written : List UInt8} {limit : Nat}
      (hw : written = x.serving.written ++ if reply.length ≤ limit then reply else []) :
      written = x.serving.written ++ reply ∨ written = x.serving.written := by
    rw [hw]
    split
    · exact Or.inl rfl
    · exact Or.inr (List.append_nil _)
  have hwrite {x₁ : Exchange} {es : List (PeerId × Event)} {r : Except Error Unit}
      (h : (Program.query (.write (ownEnd stream) reply)).Runs (Answers stream) x es r x₁) :
      Reaches Network.Attend x.others es x₁.others ∧ x₁.serving.node = x.serving.node ∧
        (x₁.serving.written = x.serving.written ++ reply ∨
          x₁.serving.written = x.serving.written) := by
    obtain ⟨hothers, told, hanswers⟩ :=
      h.of_query.of_own (by simp [Query.isLocal]) fun _ _ => Query.noConfusion
    obtain ⟨-, hnode, hw⟩ := hanswers.of_write hopen
    exact ⟨hothers, hnode, hwritten hw⟩
  rcases h.of_andThen with ⟨e, hfailed, -⟩ | ⟨u, x₁, es₁, es₂, hsent, hfinish, rfl⟩
  · exact hwrite hfailed
  · obtain ⟨hothers, hnode, hw⟩ := hwrite hsent
    obtain ⟨hothers', told, hanswers⟩ :=
      hfinish.of_query.of_own (by simp [Query.isLocal]) fun _ _ => Query.noConfusion
    obtain ⟨-, hserving⟩ := hanswers.of_finish
    rw [hserving]
    exact ⟨hothers.trans hothers', hnode, hw⟩

/-- A stream that is let go of is as it was, and so is the node. -/
theorem of_close {u : Unit} (h : ((Program.query (.finish (ownEnd stream))).bind fun _ =>
      Program.query (.release (ownEnd stream))).Runs (Answers stream) x es u x') :
    Reaches Network.Attend x.others es x'.others ∧ x'.serving.node = x.serving.node ∧
      x'.serving.written = x.serving.written := by
  obtain ⟨r, x₁, es₁, es₂, hfinish, hrelease, rfl⟩ := Program.Runs.of_bind h
  obtain ⟨hothers, told, hanswers⟩ :=
    hfinish.of_query.of_own (by simp [Query.isLocal]) fun _ _ => Query.noConfusion
  obtain ⟨-, hserving⟩ := hanswers.of_finish
  obtain ⟨hserving', net, hothers', hfares⟩ := hrelease.of_query.of_others rfl
  rw [hserving', hserving, hfares.eq_of_release]
  exact ⟨hothers.trans hothers', rfl, rfl⟩

/-- An upload that was answered was sealed and kept, and offered to others; it was answered by the hash and
the key. -/
theorem of_serve_upload {node : Node} {others : Network} {request payload : List UInt8}
    (hpeers : ∀ peer node, nodes.get? peer = some node → ∃ limit, node.Stands limit)
    (hidle : others.Idle nodes) {m : UploadRequest}
    (hrequest : ProtocolId.upload.decode UploadRequest.format request = .ok m)
    (hpayload : Base64.decodeTrimmed? m.data = some payload) {r : Except Error Unit}
    (h : (Program.serve n uploader (ownEnd stream) .upload).Runs (Answers stream)
      ⟨.start node request, others⟩ es r x') :
    x'.serving.written = [] ∨ ∃ (key : EnvelopeKey) (nonce : List UInt8),
      nonce.length = Envelope.nonceSize ∧
      x'.serving.written =
        UploadReceipt.format.octets
          ⟨contentHash (Envelope.sealWith key nonce payload), key.toBase64⟩ ∧
      x'.serving.node = node.keeping (Envelope.sealWith key nonce payload) ∧
      x'.others.Offered uploader (Envelope.sealWith key nonce payload) nodes := by
  have hread {r : Except Error (List UInt8)} {es : List (PeerId × Event)} {x₁ : Exchange}
      (h : (Program.query (.read (ownEnd stream))).Runs (Answers stream)
        ⟨.start node request, others⟩ es r x₁) :
      x₁.others = others ∧ x₁.serving.node = node ∧ x₁.serving.written = [] ∧
        x₁.serving.writer.closed = false ∧ ∀ message, r = .ok message → message = request := by
    obtain ⟨hothers, told, hanswers⟩ :=
      h.of_query.of_own (by simp [Query.isLocal]) fun _ _ => Query.noConfusion
    obtain ⟨-, ⟨rest, hserving⟩, hr⟩ := hanswers.of_read
    rw [hserving]
    refine ⟨hidle.eq_of_reaches hothers, rfl, rfl, rfl, fun message hmessage => ?_⟩
    rw [hr] at hmessage
    split at hmessage
    · exact (Except.ok.inj hmessage).symm
    · cases hmessage
  rcases h.of_andThen with ⟨e, hfailed, -⟩ | ⟨message, x₁, es₁, es₂, hreceived, hrest, rfl⟩
  · exact Or.inl (hread hfailed).2.2.1
  obtain ⟨hothers₁, hnode₁, hwritten₁, hopen₁, hmessage⟩ := hread hreceived
  obtain rfl := hmessage message rfl
  rcases hrest.of_andThen with ⟨e, hfailed, -⟩ | ⟨upload, x₂, es₃, es₄, hsealed, hreply, rfl⟩
  · obtain ⟨-, key, nonce, hnonce, -, hserving⟩ := hfailed.of_query.of_sealUpload
    rw [hserving]
    exact Or.inl hwritten₁
  · obtain ⟨hothers₂, key, nonce, hnonce, hupload, hserving⟩ := hsealed.of_query.of_sealUpload
    rw [Custody.sealUpload_eq hrequest hpayload] at hupload hserving
    obtain rfl := Except.ok.inj hupload
    rw [hothers₁] at hothers₂
    have hidle₂ : x₂.others.Idle nodes := (hidle.eq_of_reaches hothers₂).symm ▸ hidle
    obtain ⟨u, x₃, es₅, es₆, hreplicated, hsent, rfl⟩ := Program.Runs.of_bind hreply
    obtain ⟨hserving₃, hoffered⟩ := of_replicate hpeers hidle₂ hreplicated
    have hopen₃ : x₃.serving.writer.closed = false := by
      rw [hserving₃, hserving]
      exact hopen₁
    obtain ⟨hothers₄, hnode₄, hwritten₄⟩ := of_sendReply hsent hopen₃
    have hnone : x₃.serving.written = [] := by
      rw [hserving₃, hserving]
      exact hwritten₁
    rw [hnone, List.nil_append] at hwritten₄
    rcases hwritten₄ with hwritten | hwritten
    · refine Or.inr ⟨key, nonce, hnonce, hwritten, ?_, hoffered.reaches hpeers hothers₄⟩
      rw [hnode₄, hserving₃, hserving]
      exact congrArg (fun node : Node => node.keeping _) hnode₁
    · exact Or.inl hwritten

/-! ### Uploads that are answered -/

theorem answers_own {q : Query} {a : q.Answer} {told : List Event} {s : Serving}
    (h : Serving.Answers .upload (ownEnd stream) x.serving q a told s)
    (hlocal : q.isLocal (ownEnd stream) = true) (hq : ∀ n request, q ≠ .sealUpload n request) :
    Answers stream x q a [] { x with serving := s } := ⟨x.others, .refl _, .own hlocal hq h⟩

theorem answers_others {q : Query} {a : q.Answer} {net : Network}
    (hothers : Reaches Network.Attend x.others es net) {net' : Network} (h : net.Fares q a net')
    (hremote : q.isLocal (ownEnd stream) = false) :
    Answers stream x q a es { x with others := net' } := ⟨net, hothers, .others hremote h⟩

/-- An offer to a node that writes a receipt can be acknowledged. -/
theorem runs_offer (stream : StreamId) (n : NodeId) (x : Exchange) {limit : Nat} {peerNode : Node}
    (hidle : ∀ id, x.others.conduits.get? id = none)
    (hnode : x.others.nodes.get? c.peer = some peerNode) (hstands : peerNode.Stands limit)
    (hoffer : (DataBlock.offer envelope).length ≤ limit)
    (hreceipt : (Receipt.format.octets ⟨contentHash envelope⟩).length ≤ limit) :
    ∃ es others', (Program.request n c .store Receipt.format (DataBlock.offer envelope)).Runs
        (Answers stream) x es (.ok ⟨contentHash envelope⟩) { x with others := others' } ∧
      ∃ id d, others'.conduits.get? id = some d ∧ d.peer = c.peer ∧
        d.reply = some (Receipt.format.octets ⟨contentHash envelope⟩) := by
  obtain ⟨told, nodes', hserves⟩ := Network.serves_offer hnode hstands hoffer hreceipt
  obtain ⟨opened, wrote, conduits, hopen, hwrite, hfinish, hconduit⟩ :=
    Network.exists_asked (hidle 0) hoffer n c.peer .store
  let own : StreamEnd := ⟨0, true⟩
  let asked : Conduit := ⟨c.peer, .store, ⟨limit, true⟩, DataBlock.offer envelope, none⟩
  let replied : Conduit :=
    { asked with reply := some (Receipt.format.octets ⟨contentHash envelope⟩) }
  let answered : Network := ⟨nodes', conduits.insert 0 replied⟩
  have hreplied : answered.conduits.get? 0 = some replied := by rw [Table.get?_insert, if_pos rfl]
  -- Each operation on the stream is answered as the network has it.
  have hanswers {net net' : Network} {q : Query} {a : q.Answer} (hq : ∀ own, q ≠ .release own)
      (hremote : q.isLocal (ownEnd stream) = false) (heffect : net.Effect q a net') :
      Answers stream { x with others := net } q a [] { x with others := net' } :=
    answers_others (.refl _) (.effect hq heffect) hremote
  have hattend : Network.Attend ⟨x.others.nodes, conduits⟩ (told.map (c.peer, ·)) answered :=
    .intro (c := asked) hconduit rfl rfl hserves
  have hread : Answers stream { x with others := ⟨x.others.nodes, conduits⟩ } (.read own)
      (.ok (Receipt.format.octets ⟨contentHash envelope⟩)) (told.map (c.peer, ·))
      { x with others := answered } :=
    answers_others (.single hattend) (.effect (fun _ => Query.noConfusion)
      (Network.effect_read hreplied rfl hreceipt)) (by simp [Query.isLocal, own])
  have hrelease : Answers stream { x with others := answered } (.release own) () []
      { x with others := answered } := answers_others (.refl _) (.released answered own) rfl
  have hsend := Program.runs_send (hanswers (fun _ => Query.noConfusion) rfl hopen)
    (hanswers (fun _ => Query.noConfusion) (by simp [Query.isLocal]) hwrite)
    (hanswers (fun _ => Query.noConfusion) (by simp [Query.isLocal]) hfinish) hread hrelease
  exact ⟨_, answered, Program.runs_request hsend (Receipt.decode_octets .store _), 0, replied, hreplied,
    rfl, rfl⟩

/-- A block can be offered to the one node that is connected. -/
theorem runs_replicate {r : Except Error Receipt} (hpeer : c.peer ≠ uploader)
    (h : (Program.request n c .store Receipt.format (DataBlock.offer envelope)).Runs (Answers stream) x es
      r x') :
    (Program.replicate n uploader (.ofEnvelope envelope)).Runs (Answers stream) x es () x' := by
  have hlist : (Program.query (.connections n)).Runs (Answers stream) x [] (.ok [c]) x :=
    .query (answers_others (.refl _) (.effect (fun _ => Query.noConfusion)
      (.listed x.others n (.ok [c]))) rfl)
  have hcandidates : [c].filter (·.peer ≠ uploader) = [c] := by simp [hpeer]
  have hchoose : (Program.query (.choose [c].length)).Runs (Answers stream) x []
      (some ⟨0, Nat.one_pos⟩) x :=
    .query (answers_others (.refl _) (.effect (fun _ => Query.noConfusion)
      (.chosen x.others (some ⟨0, Nat.one_pos⟩) fun _ => rfl)) rfl)
  have hrest : (Program.bind (Program.request n c .store Receipt.format (DataBlock.offer envelope))
      fun _ => .done ()).Runs (Answers stream) x (es ++ []) () x' := h.bind (.done () x')
  rw [List.append_nil] at hrest
  refine hlist.bind ?_
  dsimp only
  rw [hcandidates]
  exact hchoose.bind hrest

/-- An upload can be answered, and acknowledged by a connected node that it is offered to, if all messages
are within the limits. -/
theorem runs_upload (stream : StreamId) (n : NodeId) {limit : Nat} {node peerNode : Node}
    (hstands : node.Stands limit)
    {others : Network} (hidle : ∀ id, others.conduits.get? id = none) (hpeer : c.peer ≠ uploader)
    (hnode : others.nodes.get? c.peer = some peerNode) (hpeerStands : peerNode.Stands limit)
    {request payload : List UInt8} {m : UploadRequest}
    (hrequest : ProtocolId.upload.decode UploadRequest.format request = .ok m)
    (hpayload : Base64.decodeTrimmed? m.data = some payload) (key : EnvelopeKey) {nonce : List UInt8}
    (hnonce : nonce.length = Envelope.nonceSize)
    (henvelope : Envelope.sealWith key nonce payload = envelope)
    (hfits : request.length ≤ limit) (hoffer : (DataBlock.offer envelope).length ≤ limit)
    (hreceipt : (Receipt.format.octets ⟨contentHash envelope⟩).length ≤ limit)
    (hreply : (UploadReceipt.format.octets ⟨contentHash envelope, key.toBase64⟩).length ≤ limit) :
    ∃ es x, (Program.serveAndClose n uploader (ownEnd stream) .upload).Runs (Answers stream)
        ⟨.start node request, others⟩ es () x ∧
      x.serving.written = UploadReceipt.format.octets ⟨contentHash envelope, key.toBase64⟩ ∧
      ∃ id d, x.others.conduits.get? id = some d ∧ d.peer = c.peer ∧
        d.reply = some (Receipt.format.octets ⟨contentHash envelope⟩) := by
  have hsealed := Custody.sealUpload_eq hrequest hpayload node.custody key nonce
  dsimp only at hsealed
  rw [henvelope] at hsealed
  have hreply' := hreply
  rw [← hstands.limit_eq] at hfits hreply'
  let rest := request.drop (node.network.maxMessageBytes + 1)
  let reply := UploadReceipt.format.octets ⟨contentHash envelope, key.toBase64⟩
  let upload : SealedUpload := ⟨.ofEnvelope envelope, ⟨contentHash envelope, key.toBase64⟩⟩
  let read : Serving := { Serving.start node request with inbox := rest }
  let kept : Serving := { read with node := node.keeping envelope }
  let sent : Serving := { kept with written := [] ++ reply }
  let closed : Serving := { sent with writer := sent.writer.close }
  have hread : (Program.query (.read (ownEnd stream))).Runs (Answers stream)
      ⟨.start node request, others⟩ [] (.ok request) ⟨read, others⟩ := by
    refine .query (answers_own (.read (r := .ok request) ?_) (by simp [Query.isLocal])
      fun _ _ => Query.noConfusion)
    rw [Serving.start, Serving.feed_start, if_pos hfits]
  have hseal : (Program.query (.sealUpload n request)).Runs (Answers stream) ⟨read, others⟩ []
      (.ok upload) ⟨kept, others⟩ := by
    have heffect : Effect stream ⟨read, others⟩ (.sealUpload n request)
        (node.custody.sealUpload key nonce request).1
        ⟨{ read with node := { node with custody := (node.custody.sealUpload key nonce request).2 } },
          others⟩ := .sealed ⟨read, others⟩ n key request hnonce
    rw [hsealed] at heffect
    exact .query ⟨others, .refl _, heffect⟩
  obtain ⟨es, others', hrequested, hacknowledged⟩ := runs_offer stream n ⟨kept, others⟩ hidle hnode
    hpeerStands hoffer hreceipt
  have hreplicated := runs_replicate hpeer hrequested
  have hwrite : (Program.query (.write (ownEnd stream) reply)).Runs (Answers stream) ⟨kept, others'⟩ []
      (.ok ()) ⟨sent, others'⟩ := by
    refine .query (answers_own (.write ?_) (by simp [Query.isLocal]) fun _ _ => Query.noConfusion)
    exact (Serving.write_open rfl reply).trans (if_pos hreply')
  have hfinish (s : Serving) : (Program.query (.finish (ownEnd stream))).Runs (Answers stream)
      ⟨s, others'⟩ [] (.ok ()) ⟨{ s with writer := s.writer.close }, others'⟩ :=
    .query (answers_own (.finish s) (by simp [Query.isLocal]) fun _ _ => Query.noConfusion)
  have hrelease : (Program.query (.release (ownEnd stream))).Runs (Answers stream) ⟨closed, others'⟩ []
      () ⟨closed, others'⟩ :=
    .query (answers_others (.refl _) (.released others' (ownEnd stream)) rfl)
  have hsend : (Program.sendMessage (ownEnd stream) reply).Runs (Answers stream) ⟨kept, others'⟩ []
      (.ok ()) ⟨closed, others'⟩ := hwrite.andThen (hfinish sent)
  have hserved : (Program.serve n uploader (ownEnd stream) .upload).Runs (Answers stream)
      ⟨.start node request, others⟩ ([] ++ ([] ++ (es ++ []))) (.ok ()) ⟨closed, others'⟩ :=
    hread.andThen (hseal.andThen (Program.Runs.bind hreplicated hsend))
  exact ⟨_, _, Program.Runs.bind hserved (Program.Runs.bind (hfinish closed) hrelease), rfl,
    hacknowledged⟩

/-! ### Receipts of uploads -/

/-- **An upload receipt retrieves the payload.** A node with the built-in handlers serves an upload of a
payload, among other nodes with the built-in handlers, whatever any of them has in custody and whichever
are connected, and the streams that it opened go on afterwards. If what it wrote is read as a receipt,
then it has taken in one envelope, whose hash the receipt names and from which the key of the receipt
gets the payload, and nothing else. The block of that envelope is what it has offered, to one other node
at most and not to the uploader; that node has at most taken in the envelope, and has if it acknowledged
it; and all other nodes are as they were. -/
theorem upload_retrievable {limit : Nat} {node : Node} (hstands : node.Stands limit) {others : Network}
    (hpeers : ∀ peer node, others.nodes.get? peer = some node → ∃ limit, node.Stands limit)
    (hfresh : ∀ id, others.conduits.get? id = none) {handler : Handler}
    (hhandler : node.handlers.get? .upload = some handler) {request payload : List UInt8}
    {m : UploadRequest} (hrequest : ProtocolId.upload.decode UploadRequest.format request = .ok m)
    (hpayload : Base64.decodeTrimmed? m.data = some payload)
    (hrun : (Program.serveAndClose n uploader (ownEnd stream) handler).Runs (Answers stream)
      ⟨.start node request, others⟩ es () x) {receipt : UploadReceipt}
    (hreceipt : ProtocolId.upload.decode UploadReceipt.format x.serving.written = .ok receipt)
    {es' : List (PeerId × Event)} {others' : Network}
    (hlater : Reaches Network.Attend x.others es' others') :
    ∃ envelope key, contentHash envelope = receipt.hash ∧
      EnvelopeKey.ofBase64 receipt.key = .ok key ∧ Envelope.open? key envelope = some payload ∧
      x.serving.node = node.keeping envelope ∧
      others'.Offered uploader envelope others.nodes := by
  obtain rfl := Option.some.inj
    (hhandler.symm.trans (hstands.builtin (.upload, .upload) (by decide)))
  obtain ⟨r, x₁, es₁, es₂, hserve, hclose, rfl⟩ := Program.Runs.of_bind hrun
  obtain ⟨hothers, hnode, hwritten⟩ := of_close hclose
  rw [hwritten] at hreceipt
  rcases of_serve_upload hpeers ⟨rfl, hfresh⟩ hrequest hpayload hserve with
    hnone | ⟨key, nonce, hnonce, hwritten₁, hnode₁, hoffered⟩
  · rw [hnone] at hreceipt
    exact absurd hreceipt (ProtocolId.decode_nil _ _ _)
  · rw [hwritten₁, ProtocolId.decode_octets .upload (UploadReceipt.keeps (depthLimit - 1) _)] at hreceipt
    obtain rfl := Except.ok.inj hreceipt
    exact ⟨_, key, rfl, EnvelopeKey.ofBase64_toBase64 key, Envelope.open?_sealWith key hnonce payload,
      hnode.trans hnode₁, (hoffered.reaches hpeers hothers).reaches hpeers hlater⟩

end

/-- A payload is uploaded to a node that is connected to another one: it is in the envelope that both of
them have in custody under the hash of the receipt. -/
theorem upload_retrievable_of_connected :
    ∃ (node : Node) (others : Network) (uploader : PeerId) (es : List (PeerId × Event)) (x : Exchange)
      (receipt : UploadReceipt) (envelope : List UInt8) (key : EnvelopeKey) (peer : PeerId)
      (peerNode : Node),
      (Program.serveAndClose 0 uploader (ownEnd 0) .upload).Runs (Answers 0)
        ⟨.start node (UploadRequest.format.octets ⟨Base64.encode [1, 2, 3]⟩), others⟩ es () x ∧
      ProtocolId.upload.decode UploadReceipt.format x.serving.written = .ok receipt ∧
      EnvelopeKey.ofBase64 receipt.key = .ok key ∧ Envelope.open? key envelope = some [1, 2, 3] ∧
      x.serving.node.custody.blocks.get? receipt.hash = some envelope ∧
      x.others.nodes.get? peer = some peerNode ∧
      peerNode.custody.blocks.get? receipt.hash = some envelope := by
  let key : EnvelopeKey := ⟨List.replicate EnvelopeKey.size 0, rfl⟩
  let nonce : List UInt8 := List.replicate Envelope.nonceSize 0
  let payload : List UInt8 := [1, 2, 3]
  let envelope := Envelope.sealWith key nonce payload
  let m : UploadRequest := ⟨Base64.encode payload⟩
  let reply : UploadReceipt := ⟨contentHash envelope, key.toBase64⟩
  let c : Connection := ⟨⟨[0]⟩, 0, default⟩
  let uploader : PeerId := ⟨[1]⟩
  have hbound (a b c d : Nat) : ∃ limit, a ≤ limit ∧ b ≤ limit ∧ c ≤ limit ∧ d ≤ limit :=
    ⟨a + b + c + d, by omega, by omega, by omega, by omega⟩
  obtain ⟨limit, hfits, hoffer, hreceipt, hreply⟩ := hbound (UploadRequest.format.octets m).length
    (DataBlock.offer envelope).length (Receipt.format.octets ⟨contentHash envelope⟩).length
    (UploadReceipt.format.octets reply).length
  let node : Node := { (default : Node) with
    network := { maxMessageBytes := limit }
    handlers := (Handlers.registerAll ∅ Handlers.builtin).2
    custody := .empty }
  let others : Network := ⟨(∅ : Table PeerId Node).insert c.peer node, ∅⟩
  have hstands : node.Stands limit := ⟨Handlers.get?_builtin, rfl⟩
  have hnode : others.nodes.get? c.peer = some node := by rw [Table.get?_insert, if_pos rfl]
  have hpeers (peer : PeerId) (other : Node) (h : others.nodes.get? peer = some other) :
      ∃ limit, other.Stands limit := by
    rw [Table.get?_insert] at h
    split at h
    · exact ⟨limit, Option.some.inj h ▸ hstands⟩
    · cases h
  have hrequest : ProtocolId.upload.decode UploadRequest.format (UploadRequest.format.octets m) =
      .ok m := ProtocolId.decode_octets .upload (UploadRequest.keeps (depthLimit - 1) m)
  have hpayload : Base64.decodeTrimmed? m.data = some payload := Base64.decodeTrimmed?_encode payload
  have hhandler : node.handlers.get? .upload = some .upload :=
    hstands.builtin (.upload, .upload) (by decide)
  have hidle (id : StreamId) : others.conduits.get? id = none := rfl
  have hother : c.peer ≠ uploader := by decide
  have hnonce : nonce.length = Envelope.nonceSize := rfl
  obtain ⟨es, x, hrun, hwritten, id, d, hconduit, hpeer, hacknowledged⟩ :=
    runs_upload 0 0 hstands hidle hother hnode hstands hrequest hpayload key hnonce rfl hfits hoffer
      hreceipt hreply
  have hanswer : ProtocolId.upload.decode UploadReceipt.format x.serving.written = .ok reply := by
    rw [hwritten]
    exact ProtocolId.decode_octets .upload (UploadReceipt.keeps (depthLimit - 1) reply)
  obtain ⟨envelope', key', hhash, hkey, hopen, hkeeping, hoffered⟩ :=
    upload_retrievable hstands hpeers (fun _ => rfl) hhandler hrequest hpayload hrun hanswer (.refl _)
  obtain ⟨peerNode, hpeerNode, hblock⟩ := hoffered.acknowledged id d _ ⟨contentHash envelope⟩ hconduit
    hacknowledged (Receipt.decode_octets .store _)
  refine ⟨node, others, uploader, es, x, reply, envelope', key', d.peer, peerNode, hrun, hanswer, hkey,
    hopen, ?_, hpeerNode, ?_⟩
  · rw [hkeeping, ← hhash]
    exact node.blocks_keeping envelope'
  · rw [← hhash]
    exact hblock

end Exchange

end SealedCustody
