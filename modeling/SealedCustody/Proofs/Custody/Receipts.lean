import SealedCustody.Proofs.Verification.Enrolment

/-!
# Receipts mean custody

A node that is handed a user record or a block takes it in and writes a receipt, or it writes nothing and
has nothing more in custody than before. What can be taken in, what is kept of it and what the receipt
names is `Custody.Takes`; the services follow it (`Service.takes_or_refuses`). Since nothing is not a
message, a caller that is answered by a receipt knows that custody was taken
(`Network.acknowledged_iff_taken`).
-/

namespace SealedCustody

open Json

/-! ## Taking in -/

/-- A message is a record if it names a user and both its texts are read. -/
theorem Custody.recordOf_eq_ok_iff {m : NewUser} {r : CustodyRecord} :
    recordOf m = .ok r ↔ m.id ≠ "" ∧ ∃ envelope key, Base64.decodeTrimmed? m.envelope = some envelope ∧
      EnvelopeKey.ofBase64 m.key = .ok key ∧ r = ⟨m.id, envelope, key⟩ := by
  constructor
  · intro h
    rw [recordOf] at h
    split at h
    · cases h
    rename_i hid
    split at h
    · cases h
    rename_i envelope henvelope
    split at h
    · cases h
    rename_i key hkey
    exact ⟨hid, envelope, key, henvelope, hkey, (Except.ok.inj h).symm⟩
  · rintro ⟨hid, envelope, key, henvelope, hkey, rfl⟩
    rw [recordOf, if_neg hid, henvelope]
    dsimp only
    rw [hkey]

/-- A block holds octets whose hash it names, in letters of either size. -/
theorem Custody.octetsOf_eq_ok_iff {b : DataBlock} {octets : List UInt8} :
    octetsOf b = .ok octets ↔
      Base64.decodeTrimmed? b.cipher = some octets ∧ contentHash octets = asciiLower b.hash := by
  rw [octetsOf]
  cases Base64.decodeTrimmed? b.cipher with
  | none => simp
  | some bs =>
    dsimp only
    split
    · rename_i hhash
      refine ⟨fun h => ?_, fun h => congrArg Except.ok (Option.some.inj h.1)⟩
      obtain rfl := Except.ok.inj h
      exact ⟨rfl, hhash⟩
    · rename_i hhash
      refine ⟨(nomatch ·), fun h => ?_⟩
      obtain rfl := Option.some.inj h.1
      exact absurd h.2 hhash

/-- What a message hands over is kept, and the receipt that names it: a sealed record and its key under
the id of the user, or a block under its hash in small letters. Everything else stays as it is. -/
inductive Custody.Takes (c : Custody) : ProtocolId → List UInt8 → Receipt → Custody → Prop
  | user {payload envelope : List UInt8} {m : NewUser} {key : EnvelopeKey}
      (hmessage : ProtocolId.newUser.decode NewUser.format payload = .ok m) (hid : m.id ≠ "")
      (henvelope : Base64.decodeTrimmed? m.envelope = some envelope)
      (hkey : EnvelopeKey.ofBase64 m.key = .ok key) :
      Takes c .newUser payload ⟨m.id⟩ { c with users := c.users.insert m.id ⟨m.id, envelope, key⟩ }
  | block {payload octets : List UInt8} {b : DataBlock}
      (hmessage : ProtocolId.store.decode DataBlock.format payload = .ok b)
      (hoctets : Base64.decodeTrimmed? b.cipher = some octets)
      (hhash : contentHash octets = asciiLower b.hash) :
      Takes c .store payload ⟨b.hash⟩ { c with blocks := c.blocks.insert (asciiLower b.hash) octets }

theorem Custody.Takes.of_newUser {c custody : Custody} {payload : List UInt8} {receipt : Receipt}
    (h : c.Takes .newUser payload receipt custody) :
    ∃ m envelope key, ProtocolId.newUser.decode NewUser.format payload = .ok m ∧ m.id ≠ "" ∧
      Base64.decodeTrimmed? m.envelope = some envelope ∧ EnvelopeKey.ofBase64 m.key = .ok key ∧
      receipt = ⟨m.id⟩ ∧
      custody = { c with users := c.users.insert m.id ⟨m.id, envelope, key⟩ } := by
  generalize hp : ProtocolId.newUser = p at h
  cases h with
  | user hmessage hid henvelope hkey =>
    exact ⟨_, _, _, hmessage, hid, henvelope, hkey, rfl, rfl⟩
  | block => exact absurd hp (by decide)

theorem Custody.Takes.of_store {c custody : Custody} {payload : List UInt8} {receipt : Receipt}
    (h : c.Takes .store payload receipt custody) :
    ∃ b octets, ProtocolId.store.decode DataBlock.format payload = .ok b ∧
      Base64.decodeTrimmed? b.cipher = some octets ∧ contentHash octets = asciiLower b.hash ∧
      receipt = ⟨b.hash⟩ ∧
      custody = { c with blocks := c.blocks.insert (asciiLower b.hash) octets } := by
  generalize hp : ProtocolId.store = p at h
  cases h with
  | user => exact absurd hp (by decide)
  | block hmessage hoctets hhash => exact ⟨_, _, hmessage, hoctets, hhash, rfl, rfl⟩

/-- A sealed record is taken in. -/
theorem Custody.takes_sealing (c : Custody) {userId : String} (huser : userId ≠ "") (r : Record)
    (key : EnvelopeKey) (nonce : List UInt8) :
    c.Takes .newUser (NewUser.format.octets (.sealing userId r key nonce)) ⟨userId⟩
      { c with users := c.users.insert userId (.ofRecord userId r key nonce) } := by
  have hdecode := ProtocolId.decode_octets .newUser
    (NewUser.keeps (depthLimit - 1) (.sealing userId r key nonce))
  exact .user hdecode huser (Base64.decodeTrimmed?_encode _) (EnvelopeKey.ofBase64_toBase64 key)

/-- The protocols on which something is handed over, and the services that take it in. -/
inductive Service.TakesIn : ProtocolId → Service → Prop
  | newUser : TakesIn .newUser .newUser
  | store : TakesIn .store .store

/-- A message is taken in and answered by the receipt, or it cannot be taken in and is refused. -/
def Custody.TakesOrRefuses (c : Custody) (p : ProtocolId) (payload : List UInt8) (r : Response) : Prop :=
  (∃ receipt, c.Takes p payload receipt r.custody ∧ r.reply = .ok (Receipt.format.octets receipt)) ∨
    (∃ e, r = .refused c e) ∧ ∀ receipt custody, ¬c.Takes p payload receipt custody

theorem Custody.takes_or_refuses_enroll (c : Custody) (payload : List UInt8) :
    c.TakesOrRefuses .newUser payload (c.enroll payload) := by
  rw [enroll]
  cases hdecode : ProtocolId.newUser.decode NewUser.format payload with
  | error e =>
    refine Or.inr ⟨⟨e, rfl⟩, fun receipt custody h => ?_⟩
    obtain ⟨m, envelope, key, hmessage, -⟩ := h.of_newUser
    cases hdecode.symm.trans hmessage
  | ok m =>
    dsimp only
    rw [putUser]
    cases hrecord : recordOf m with
    | error e =>
      refine Or.inr ⟨⟨e, rfl⟩, fun receipt custody h => ?_⟩
      obtain ⟨m', envelope, key, hmessage, hid, henvelope, hkey, -⟩ := h.of_newUser
      cases hdecode.symm.trans hmessage
      cases hrecord.symm.trans (recordOf_eq_ok_iff.2 ⟨hid, _, _, henvelope, hkey, rfl⟩)
    | ok r =>
      obtain ⟨hid, envelope, key, henvelope, hkey, rfl⟩ := recordOf_eq_ok_iff.1 hrecord
      exact Or.inl ⟨⟨m.id⟩, .user hdecode hid henvelope hkey, rfl⟩

theorem Custody.takes_or_refuses_keep (c : Custody) (payload : List UInt8) :
    c.TakesOrRefuses .store payload (c.keep payload) := by
  rw [keep]
  cases hdecode : ProtocolId.store.decode DataBlock.format payload with
  | error e =>
    refine Or.inr ⟨⟨e, rfl⟩, fun receipt custody h => ?_⟩
    obtain ⟨b, octets, hmessage, -⟩ := h.of_store
    cases hdecode.symm.trans hmessage
  | ok b =>
    dsimp only
    rw [putBlock]
    cases hoctets : octetsOf b with
    | error e =>
      refine Or.inr ⟨⟨e, rfl⟩, fun receipt custody h => ?_⟩
      obtain ⟨b', octets, hmessage, hcipher, hhash, -⟩ := h.of_store
      cases hdecode.symm.trans hmessage
      cases hoctets.symm.trans (octetsOf_eq_ok_iff.2 ⟨hcipher, hhash⟩)
    | ok octets =>
      obtain ⟨hcipher, hhash⟩ := octetsOf_eq_ok_iff.1 hoctets
      exact Or.inl ⟨⟨b.hash⟩, .block hdecode hcipher hhash, rfl⟩

theorem Service.takes_or_refuses {p : ProtocolId} {service : Service} (h : TakesIn p service)
    (c : Custody) (payload : List UInt8) : c.TakesOrRefuses p payload (service.respond c payload) := by
  cases h with
  | newUser => exact c.takes_or_refuses_enroll payload
  | store => exact c.takes_or_refuses_keep payload

theorem Receipt.decode_octets (p : ProtocolId) (receipt : Receipt) :
    p.decode Receipt.format (Receipt.format.octets receipt) = .ok receipt :=
  p.decode_octets (Receipt.keeps (depthLimit - 1) receipt)

/-! ## Streams -/

/-- What was written on a stream stands for what the node has in custody: a receipt for what was handed
over, which is all that was taken in, or nothing, with custody as before. Nothing is written only if the
message is too long or cannot be taken in. -/
def Node.Acknowledges (node : Node) (p : ProtocolId) (payload : List UInt8) (s : Serving) : Prop :=
  (∃ receipt custody, node.custody.Takes p payload receipt custody ∧
    payload.length ≤ node.network.maxMessageBytes ∧ s.node = { node with custody } ∧
    s.written = Receipt.format.octets receipt ∧ p.decode Receipt.format s.written = .ok receipt) ∨
  (s.node = node ∧ s.written = [] ∧ (node.network.maxMessageBytes < payload.length ∨
    ∀ receipt custody, ¬node.custody.Takes p payload receipt custody))

namespace Serving

variable {p : ProtocolId} {service : Service} {node : Node} {payload : List UInt8} {told : List Event}
  {s : Serving}

/-- A stream that was served has taken in what was handed over and written what of the receipt is within
the limit, or has taken in and written nothing. -/
theorem Served.takes_or_refuses (h : Served p service node payload told s)
    (hp : Service.TakesIn p service) :
    (∃ receipt custody, node.custody.Takes p payload receipt custody ∧
      payload.length ≤ node.network.maxMessageBytes ∧ s.node = { node with custody } ∧
      s.written = writtenOf node.network.maxMessageBytes (.ok (Receipt.format.octets receipt))) ∨
    (s.node = node ∧ s.written = [] ∧ (node.network.maxMessageBytes < payload.length ∨
      ∀ receipt custody, ¬node.custody.Takes p payload receipt custody)) := by
  obtain ⟨-, hnode, hwritten⟩ := h
  by_cases hfits : payload.length ≤ node.network.maxMessageBytes
  · rw [respondOn, if_pos hfits] at hnode hwritten
    rcases Service.takes_or_refuses hp node.custody payload with
      ⟨receipt, htakes, hreply⟩ | ⟨⟨e, he⟩, hnothing⟩
    · exact Or.inl ⟨receipt, _, htakes, hfits, hnode, hreply ▸ hwritten⟩
    · rw [he] at hnode hwritten
      exact Or.inr ⟨hnode, hwritten, Or.inr hnothing⟩
  · rw [respondOn, if_neg hfits] at hnode hwritten
    exact Or.inr ⟨hnode, hwritten, Or.inl (Nat.lt_of_not_le hfits)⟩

theorem Served.acknowledges (h : Served p service node payload told s)
    (hp : Service.TakesIn p service)
    (hreceipt : ∀ receipt custody, node.custody.Takes p payload receipt custody →
      (Receipt.format.octets receipt).length ≤ node.network.maxMessageBytes) :
    node.Acknowledges p payload s := by
  rcases h.takes_or_refuses hp with ⟨receipt, custody, htakes, hfits, hnode, hwritten⟩ | hnothing
  · rw [writtenOf, if_pos (hreceipt receipt custody htakes)] at hwritten
    exact Or.inl ⟨receipt, custody, htakes, hfits, hnode, hwritten,
      hwritten ▸ Receipt.decode_octets p receipt⟩
  · exact Or.inr hnothing

/-- A receipt is read only where one was written. -/
theorem Served.takes_of_decode (h : Served p service node payload told s)
    (hp : Service.TakesIn p service) {receipt : Receipt}
    (hdecode : p.decode Receipt.format s.written = .ok receipt) :
    ∃ custody, node.custody.Takes p payload receipt custody ∧ s.node = { node with custody } := by
  rcases h.takes_or_refuses hp with
    ⟨receipt', custody, htakes, -, hnode, hwritten⟩ | ⟨-, hwritten, -⟩
  · rw [hwritten, writtenOf] at hdecode
    split at hdecode
    · rw [Receipt.decode_octets] at hdecode
      cases hdecode
      exact ⟨custody, htakes, hnode⟩
    · exact absurd hdecode (p.decode_nil _ _)
  · rw [hwritten] at hdecode
    exact absurd hdecode (p.decode_nil _ _)

end Serving

/-- The built-in handlers of the protocols on which something is handed over. -/
theorem Node.Stands.takesIn {limit : Nat} {node : Node} (h : node.Stands limit) {p : ProtocolId}
    (hp : p = .newUser ∨ p = .store) :
    ∃ service, Service.TakesIn p service ∧ node.handlers.get? p = some (.service service) := by
  rcases hp with rfl | rfl
  · exact ⟨.newUser, .newUser, h.builtin (.newUser, .service .newUser) (by decide)⟩
  · exact ⟨.store, .store, h.builtin (.store, .service .store) (by decide)⟩

/-- Printing, echoing and verifying change nothing in custody. -/
theorem Service.custody_respond {service : Service} (h : service ≠ .newUser ∧ service ≠ .store)
    (c : Custody) (request : List UInt8) : (service.respond c request).custody = c := by
  cases service with
  | print =>
    rw [respond]
    cases ProtocolId.print.decode PrintMessage.format request <;> rfl
  | echo => rfl
  | newUser => exact absurd rfl h.1
  | store => exact absurd rfl h.2
  | verify =>
    rw [respond, Custody.answerQuery]
    cases ProtocolId.verify.decode VerifyRequest.format request <;> rfl

/-- A stream that was served by a service which changes nothing in custody leaves the node as it was. -/
theorem Serving.Served.node_eq_self {p : ProtocolId} {service : Service} {node : Node}
    {payload : List UInt8} {told : List Event} {s : Serving}
    (h : Served p service node payload told s) (hs : service ≠ .newUser ∧ service ≠ .store) :
    s.node = node := by
  rw [h.node_eq, respondOn]
  split
  · rw [Service.custody_respond hs]
  · rfl

theorem Node.Stands.leaves {limit : Nat} {node : Node} (h : node.Stands limit) {p : ProtocolId}
    (hp : p = .print ∨ p = .echo ∨ p = .verify) :
    ∃ service, (service ≠ .newUser ∧ service ≠ .store) ∧
      node.handlers.get? p = some (.service service) := by
  rcases hp with rfl | rfl | rfl
  · exact ⟨.print, by decide, h.builtin (.print, .service .print) (by decide)⟩
  · exact ⟨.echo, by decide, h.builtin (.echo, .service .echo) (by decide)⟩
  · exact ⟨.verify, by decide, h.builtin (.verify, .service .verify) (by decide)⟩

namespace Network

/-- **An acknowledgement means custody, silence that nothing happened.** Whatever arrives at a node with
the built-in handlers as a user record or a block, whose receipt is within the limit: the handler comes
to its end, and has written a receipt for what it has taken in or written nothing and taken in nothing.
Whoever asks a node to take something in and is answered by a receipt was answered at a point where the
node took in what was sent, and that alone. The handlers that print, echo and verify leave the node as it
was, whatever they are sent. -/
theorem acknowledged_iff_taken (limit : Nat) :
    (∀ (node : Node) (p : ProtocolId) (payload : List UInt8), node.Stands limit →
      (p = .newUser ∨ p = .store) →
      (∀ receipt custody, node.custody.Takes p payload receipt custody →
        (Receipt.format.octets receipt).length ≤ limit) →
      ∃ h, node.handlers.get? p = some h ∧ ∀ (n : NodeId) (caller : PeerId) (own : StreamEnd),
        (∃ told s, (Program.serveAndClose n caller own h).Runs (Serving.Answers p own)
          (.start node payload) told () s) ∧
        ∀ told s, (Program.serveAndClose n caller own h).Runs (Serving.Answers p own)
          (.start node payload) told () s → node.Acknowledges p payload s) ∧
    (∀ (net net' : Network) (es : List (PeerId × Event)) (n : NodeId) (c : Connection) (p : ProtocolId)
      (payload : List UInt8) (receipt : Receipt), net.At c.peer (Node.Stands limit) →
      (p = .newUser ∨ p = .store) →
      (Program.request n c p Receipt.format payload).Runs Answers net es (.ok receipt) net' →
      ∃ net₁ net₂ before after node custody, Reaches Change net before net₁ ∧
        net₁.nodes.get? c.peer = some node ∧ node.custody.Takes p payload receipt custody ∧
        net₂.nodes = net₁.nodes.insert c.peer { node with custody } ∧ Reaches Change net₂ after net') ∧
    ∀ (node : Node) (p : ProtocolId), node.Stands limit → (p = .print ∨ p = .echo ∨ p = .verify) →
      ∃ h, node.handlers.get? p = some h ∧
        ∀ (n : NodeId) (caller : PeerId) (own : StreamEnd) (payload : List UInt8) (told : List Event)
          (s : Serving), (Program.serveAndClose n caller own h).Runs (Serving.Answers p own)
            (.start node payload) told () s → s.node = node := by
  refine ⟨fun node p payload hstands hp hreceipt => ?served, ?asked, fun node p hstands hp => ?left⟩
  case served =>
    obtain ⟨service, htakes, hhandler⟩ := hstands.takesIn hp
    refine ⟨_, hhandler, fun n caller own =>
      ⟨Serving.runs_serveAndClose p own n caller service node payload, fun told s hrun => ?_⟩⟩
    obtain ⟨hserved, -⟩ := Serving.of_serveAndClose hrun
    rw [← hstands.limit_eq] at hreceipt
    exact hserved.acknowledges htakes hreceipt
  case asked =>
    intro net net' es n c p payload receipt hstands hp hrun
    obtain ⟨net₁, net₂, told, reply, before, after, hbefore, hserves, hafter, -, hdecode⟩ :=
      of_request hrun
    have hstands₁ := hstands.of_reaches (Node.invariant_stands limit) hbefore fun _ _ _ => trivial
    generalize hnodes : net₂.nodes = nodes at hserves
    cases hserves with
    | @intro node h n' caller own told s hnode hhandler hserved =>
      obtain ⟨service, htakes, hservice⟩ := (hstands₁.of_get? hnode).takesIn hp
      obtain rfl := Option.some.inj (hhandler.symm.trans hservice)
      obtain ⟨hserved, -⟩ := Serving.of_serveAndClose hserved
      obtain ⟨custody, htaken, hs⟩ := hserved.takes_of_decode htakes hdecode
      exact ⟨net₁, net₂, before, after, node, custody, hbefore, hnode, htaken, by rw [hnodes, hs],
        hafter⟩
  case left =>
    obtain ⟨service, hservice, hhandler⟩ := hstands.leaves hp
    refine ⟨_, hhandler, fun n caller own payload told s hrun => ?_⟩
    obtain ⟨hserved, -⟩ := Serving.of_serveAndClose hrun
    exact hserved.node_eq_self hservice

/-- A node that is handed a record writes the receipt, whoever asks it to is told so, and an echo leaves
it as it was. -/
theorem acknowledged_iff_taken_of_record :
    let key : EnvelopeKey := ⟨List.replicate EnvelopeKey.size 0, rfl⟩
    let nonce : List UInt8 := List.replicate Envelope.nonceSize 0
    let payload := NewUser.format.octets (.sealing "u" [] key nonce)
    ∃ (node : Node) (s s' : Serving) (net net' net₁ : Network) (c : Connection) (node₁ : Node)
      (custody : Custody),
      s.written = Receipt.format.octets ⟨"u"⟩ ∧
      s.node.custody.users.get? "u" = some (.ofRecord "u" [] key nonce) ∧
      (Program.request 0 c .newUser Receipt.format payload).Runs Answers net
        [(c.peer, .userEnrolled "u")] (.ok ⟨"u"⟩) net' ∧
      net₁.nodes.get? c.peer = some node₁ ∧ node₁.custody.Takes .newUser payload ⟨"u"⟩ custody ∧
      s'.node = node := by
  intro key nonce payload
  let own : StreamEnd := ⟨0, false⟩
  let c : Connection := ⟨⟨[0]⟩, 0, default⟩
  obtain ⟨limit, hpayload, hreceipt⟩ : ∃ limit, payload.length ≤ limit ∧
      (Receipt.format.octets ⟨"u"⟩).length ≤ limit :=
    ⟨payload.length + (Receipt.format.octets ⟨"u"⟩).length, by omega, by omega⟩
  let node : Node := { (default : Node) with
    network := { maxMessageBytes := limit }
    handlers := (Handlers.registerAll ∅ Handlers.builtin).2
    custody := .empty }
  let net : Network := ⟨(∅ : Table PeerId Node).insert c.peer node, ∅⟩
  have hnode : net.nodes.get? c.peer = some node := by rw [Table.get?_insert, if_pos rfl]
  have hstands : node.Stands limit := ⟨Handlers.get?_builtin, rfl⟩
  have huser : "u" ≠ "" := by decide
  have htakes := node.custody.takes_sealing huser [] key nonce
  have hnamed (receipt : Receipt) (custody : Custody)
      (h : node.custody.Takes .newUser payload receipt custody) :
      receipt = ⟨"u"⟩ ∧
        custody.users.get? "u" = some (CustodyRecord.ofRecord "u" [] key nonce) := by
    obtain ⟨m, envelope, key', hmessage, -, henvelope, hkey, rfl, rfl⟩ := h.of_newUser
    obtain ⟨m', envelope'', key'', hmessage', -, henvelope', hkey', hreceipt', hcustody⟩ :=
      htakes.of_newUser
    cases hmessage.symm.trans hmessage'
    cases henvelope.symm.trans henvelope'
    cases hkey.symm.trans hkey'
    refine ⟨hreceipt'.symm, ?_⟩
    rw [← hcustody, Table.get?_insert, if_pos rfl]
  obtain ⟨hserved, hasked, hleft⟩ := acknowledged_iff_taken limit
  obtain ⟨h, -, hruns⟩ := hserved node .newUser payload hstands (Or.inl rfl) fun receipt custody hr =>
    (hnamed receipt custody hr).1 ▸ hreceipt
  obtain ⟨⟨told, s, hrun⟩, hwrites⟩ := hruns 0 c.peer own
  obtain ⟨nodes, hserves⟩ := serves_sealing hnode hstands huser hpayload hreceipt
  have hfresh : net.conduits.get? 0 = none := rfl
  obtain ⟨conduits, hrequest⟩ := runs_request hserves hfresh hpayload hreceipt
    (Receipt.decode_octets .newUser ⟨"u"⟩) 0
  obtain ⟨net₁, net₂, before, after, node₁, custody, -, hnode₁, htaken, -, -⟩ :=
    hasked net _ _ 0 c .newUser payload ⟨"u"⟩ ⟨node, hnode, hstands⟩ (Or.inl rfl) hrequest
  obtain ⟨echo, hecho, hechoes⟩ := hleft node .echo hstands (Or.inr (Or.inl rfl))
  obtain rfl := Option.some.inj
    (hecho.symm.trans (hstands.builtin (.echo, .service .echo) (by decide)))
  obtain ⟨told', s', hrun'⟩ :=
    Serving.runs_serveAndClose .echo own 0 c.peer .echo node []
  have hack : s.written = Receipt.format.octets ⟨"u"⟩ ∧
      s.node.custody.users.get? "u" = some (.ofRecord "u" [] key nonce) := by
    rcases hwrites told s hrun with ⟨receipt, custody', ht, -, hs, hw, -⟩ | ⟨-, -, hlong | hnone⟩
    · obtain ⟨rfl, huser⟩ := hnamed receipt custody' ht
      exact ⟨hw, by rw [hs]; exact huser⟩
    · exact absurd hpayload (Nat.not_le.2 hlong)
    · exact absurd htakes (hnone _ _)
  exact ⟨node, s, s', net, _, net₁, c, node₁, custody, hack.1, hack.2, hrequest, hnode₁, htaken,
    hechoes 0 c.peer own [] told' s' hrun'⟩

end Network

end SealedCustody
