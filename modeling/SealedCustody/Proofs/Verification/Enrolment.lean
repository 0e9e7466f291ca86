import SealedCustody.Proofs.Verification.Network

/-!
# Enrolment, then verification

A node that an enrolment returned has taken in the record, and from then on answers queries about the
user as the record itself does, until it tells that it took in another record for the user. Queries
about anybody it never took in a record for it answers with `Verdict.unknownSubject`.

The offer that was accepted is the one place where the two nodes meet (`Network.of_offerPeer`): the
receipt came back on a stream that the peer served, and what it served was the message with the sealed
record. Before that moment and after it only invariants of nodes are needed.
-/

namespace SealedCustody

open Json

/-- The node answers a query with a verdict, if both messages are within a limit: it replies with what is
read as that verdict under the id of the query. -/
def Node.AnswersQuery (limit : Nat) (node : Node) (q : VerifyRequest) (v : Verdict) : Prop :=
  (VerifyRequest.format.octets q).length ≤ limit →
  (VerifyResponse.format.octets ⟨q.requestId, v⟩).length ≤ limit →
    ∃ reply, node.Replies .verify (VerifyRequest.format.octets q) reply ∧
      ProtocolId.verify.decode VerifyResponse.format reply = .ok ⟨q.requestId, v⟩

/-- A node with the built-in handlers answers queries by the verdicts of its custody. -/
theorem Node.Stands.answersQuery {limit : Nat} {node : Node} (h : node.Stands limit)
    {q : VerifyRequest} (hcriteria : q.criteria.Legible (depthLimit - 4)) {v : Verdict}
    (hverdict : node.custody.verdict q.subjectId q.criteria = v) : node.AnswersQuery limit q v := by
  intro hrequest hresponse
  rw [← h.limit_eq] at hrequest hresponse
  have hhandler : node.handlers.get? .verify = some (.service .verify) :=
    h.builtin (.verify, .service .verify) (by decide)
  have hreply : (Service.verify.respond node.custody (VerifyRequest.format.octets q)).reply =
      .ok (VerifyResponse.format.octets ⟨q.requestId, v⟩) := by
    rw [Service.respond, node.custody.answerQuery_octets hcriteria, hverdict]
  exact ⟨_, Node.replies_of_service hhandler hrequest hreply hresponse,
    ProtocolId.decode_octets .verify (VerifyResponse.keeps (depthLimit - 1) ⟨q.requestId, v⟩)⟩

namespace Network

variable {net net' : Network} {es : List (PeerId × Event)} {p : PeerId} {limit : Nat}

/-- A service that takes in the sealed record has been asked within its limit if it wrote a receipt. -/
theorem of_served_sealing {userId : String} (huser : userId ≠ "") {r : Record} {key : EnvelopeKey}
    {nonce : List UInt8} {node : Node} {told : List Event} {s : Serving} {receipt : Receipt}
    (hserved : Serving.Served .newUser .newUser node
      (NewUser.format.octets (.sealing userId r key nonce)) told s)
    (hdecode : ProtocolId.newUser.decode Receipt.format s.written = .ok receipt) :
    told = [.userEnrolled userId] ∧
      s.node.custody.user? userId = some (.ofRecord userId r key nonce) := by
  obtain ⟨htold, hnode, hwritten⟩ := hserved
  by_cases hfits : (NewUser.format.octets (.sealing userId r key nonce)).length ≤
      node.network.maxMessageBytes
  · rw [Serving.respondOn, if_pos hfits, Service.respond, node.custody.enroll_sealing huser]
      at htold hnode
    refine ⟨htold, ?_⟩
    rw [hnode]
    exact (Table.get?_insert ..).trans (if_pos rfl)
  · rw [Serving.respondOn, if_neg hfits] at hwritten
    rw [hwritten] at hdecode
    exact absurd hdecode (ProtocolId.decode_nil _ _ _)

/-- A peer that accepted an offer has taken in the record and told so. -/
theorem of_offerPeer {n : NodeId} {a : Address} {userId : String} (huser : userId ≠ "") {r : Record}
    {key : EnvelopeKey} {nonce : List UInt8} (hstands : net.At p (Node.Stands limit))
    (h : (Program.offerPeer n (.sealing userId r key nonce) a).Runs Answers net es (.ok p) net') :
    ∃ net₂ before after, es = before ++ (p, .userEnrolled userId) :: after ∧
      net₂.At p (fun node => node.custody.user? userId = some (.ofRecord userId r key nonce)) ∧
      Reaches Change net₂ after net' := by
  obtain ⟨c, net₁, es₁, es₂, hdial, hrest, rfl⟩ := h.of_andThen_ok
  obtain ⟨receipt, net₃, es₃, es₄, hrequest, hdone, rfl⟩ := hrest.of_andThen_ok
  obtain ⟨haccept, rfl, rfl⟩ := hdone.of_done
  obtain ⟨net₅, net₆, told, reply, before, after, hbefore, hserves, hafter, rfl, hdecode⟩ :=
    of_request hrequest
  -- the receipt is accepted in the name of the peer that was dialed
  have hpeer : c.peer = p := by
    rw [acceptanceOf] at haccept
    split at haccept
    · exact Except.ok.inj haccept
    · cases haccept
  subst hpeer
  have hstands₅ : net₅.At c.peer (Node.Stands limit) :=
    hstands.of_reaches (Node.invariant_stands limit) ((reaches_of_runs hdial).trans hbefore)
      fun _ _ _ => trivial
  -- what served the stream is the built-in handler, and it wrote a receipt: it took the record in
  generalize hnodes : net₆.nodes = nodes at hserves
  cases hserves with
  | intro hnode hhandler hrun =>
    have hservice := (hstands₅.of_get? hnode).builtin (.newUser, .service .newUser) (by decide)
    obtain rfl := Option.some.inj (hhandler.symm.trans hservice)
    obtain ⟨hserved, -⟩ := Serving.of_serveAndClose hrun
    obtain ⟨rfl, htaken⟩ := of_served_sealing huser hserved hdecode
    refine ⟨net₆, es₁ ++ before, after, ?_, ?_, hafter⟩
    · simp
    · exact ⟨_, by rw [hnodes, Table.get?_insert, if_pos rfl], htaken⟩

/-- A peer that was offered to in some order and accepted did so in an offer of its own. -/
theorem of_offerOn {offer : Address → Program (Except Error PeerId)} {fault : Option Error}
    {addresses : List Address}
    (h : (offerOn offer fault addresses).Runs Answers net es (.ok p) net') :
    ∃ a net₁ es₁ es₂, Reaches Change net es₁ net₁ ∧ (offer a).Runs Answers net₁ es₂ (.ok p) net' ∧
      es = es₁ ++ es₂ := by
  induction addresses generalizing net fault es with
  | nil => exact nomatch h.of_done.1
  | cons a addresses ih =>
    obtain ⟨r, net₁, es₁, es₂, hoffer, hrest, rfl⟩ := Program.Runs.of_bind h
    cases r with
    | ok p' =>
      obtain ⟨hp, rfl, rfl⟩ := hrest.of_done
      obtain rfl := Except.ok.inj hp
      exact ⟨a, net, [], es₁, .refl net, hoffer, List.append_nil es₁⟩
    | error e =>
      obtain ⟨b, net₂, es₃, es₄, hreaches, hoffer', rfl⟩ := ih hrest
      exact ⟨b, net₂, es₁ ++ es₃, es₄, (reaches_of_runs hoffer).trans hreaches, hoffer',
        (List.append_assoc ..).symm⟩

/-- A peer that an enrolment returned has taken in the record and told so. -/
theorem of_enroll {n : NodeId} {source : PeerSource} {userId : String} (huser : userId ≠ "")
    {r : Record} {key : EnvelopeKey} {nonce : List UInt8} (hstands : net.At p (Node.Stands limit))
    (h : (Program.enroll n source (.sealing userId r key nonce)).Runs Answers net es (.ok p) net') :
    ∃ net₂ before after, es = before ++ (p, .userEnrolled userId) :: after ∧
      net₂.At p (fun node => node.custody.user? userId = some (.ofRecord userId r key nonce)) ∧
      Reaches Change net₂ after net' := by
  obtain ⟨peers, net₁, es₁, es₂, hpeers, hwalk, rfl⟩ := Program.Runs.of_bind h
  rw [offerInOrder] at hwalk
  cases hcandidates : candidates peers with
  | error e =>
    rw [hcandidates] at hwalk
    exact nomatch hwalk.of_done.1
  | ok addresses =>
    rw [hcandidates] at hwalk
    obtain ⟨a, net₃, es₃, es₄, hreaches, hoffer, rfl⟩ := of_offerOn hwalk
    have hstands₃ : net₃.At p (Node.Stands limit) :=
      hstands.of_reaches (Node.invariant_stands limit) ((reaches_of_runs hpeers).trans hreaches)
        fun _ _ _ => trivial
    obtain ⟨net₂, before, after, rfl, htaken, hafter⟩ := of_offerPeer huser hstands₃ hoffer
    exact ⟨net₂, es₁ ++ (es₃ ++ before), after, by simp only [List.append_assoc], htaken, hafter⟩

theorem ne_of_not_mem {event : Event} (h : (p, event) ∉ es) : ∀ e ∈ es, e.1 = p → e.2 ≠ event := by
  intro e he hpeer hevent
  have hsame : e = (p, event) := Prod.ext hpeer hevent
  exact h (hsame ▸ he)

/-- What an enrolment leaves behind. Here `p` has the built-in handlers and began with nothing in custody.
If the enrolment of a legible record returns `p`, then `p` told on the way that it took the record in, and
however the network goes on, `p` answers a query that is legible and fits its limit

* about the user by what the record itself says to the criteria, as long as `p` has not told since then
  that it took in another record for the user;
* about a subject for whom `p` never told that it took in a record, by not knowing the subject. -/
theorem answers_after_enroll {net₀ : Network} {host : Node} (hhost : net₀.nodes.get? p = some host)
    (hstands : host.Stands limit) (hempty : host.custody = .empty)
    {earlier : List (PeerId × Event)} (hearlier : Reaches Change net₀ earlier net) {n : NodeId}
    {source : PeerSource} {userId : String} (huser : userId ≠ "") {r : Record}
    (hrecord : (Value.object r).Legible depthLimit) {key : EnvelopeKey} {nonce : List UInt8}
    (hnonce : nonce.length = Envelope.nonceSize)
    (henroll : (Program.enroll n source (.sealing userId r key nonce)).Runs Answers net es (.ok p) net') :
    ∃ before after, es = before ++ (p, .userEnrolled userId) :: after ∧
      ∀ later net'', Reaches Change net' later net'' → ∃ node, net''.nodes.get? p = some node ∧
        ∀ q : VerifyRequest, q.criteria.Legible (depthLimit - 4) →
          (q.subjectId = userId → (p, .userEnrolled userId) ∉ after ++ later →
            node.AnswersQuery limit q (if q.criteria.evaluate r then .eligible else .ineligible)) ∧
          ((p, .userEnrolled q.subjectId) ∉ earlier ++ es ++ later →
            node.AnswersQuery limit q .unknownSubject) := by
  have hstands₀ : net₀.At p (Node.Stands limit) := ⟨host, hhost, hstands⟩
  have hstands₁ : net.At p (Node.Stands limit) :=
    hstands₀.of_reaches (Node.invariant_stands limit) hearlier fun _ _ _ => trivial
  obtain ⟨net₂, before, after, rfl, htaken, hafter⟩ := of_enroll huser hstands₁ henroll
  refine ⟨before, after, rfl, fun later net'' hlater => ?_⟩
  have hreaches := (hearlier.trans (reaches_of_runs henroll)).trans hlater
  obtain ⟨node, hnode, hstands''⟩ :=
    hstands₀.of_reaches (Node.invariant_stands limit) hreaches fun _ _ _ => trivial
  refine ⟨node, hnode, fun q hcriteria => ⟨fun hsubject hquiet => ?_, fun hquiet => ?_⟩⟩
  -- the record is still the one taken in, since no other was told for the user
  · have htaken'' := htaken.of_reaches (Node.invariant_user userId _) (hafter.trans hlater)
      (ne_of_not_mem hquiet)
    refine hstands''.answersQuery hcriteria ?_
    rw [Custody.verdict, hsubject, htaken''.of_get? hnode]
    exact CustodyRecord.verdict_ofRecord userId key hrecord hnonce q.criteria
  -- nothing was in custody for the subject at the start, and nothing was told for it since
  · have hnone₀ : net₀.At p fun node => node.custody.user? q.subjectId = none :=
      ⟨host, hhost, congrArg (·.user? q.subjectId) hempty⟩
    have hnone'' := hnone₀.of_reaches (Node.invariant_user q.subjectId none) hreaches
      (ne_of_not_mem hquiet)
    refine hstands''.answersQuery hcriteria ?_
    rw [Custody.verdict, hnone''.of_get? hnode]

/-! ## Enrolments that are accepted -/

/-- A node with the built-in handlers that is handed a sealed record can take it in and write a receipt. -/
theorem serves_sealing {nodes : Table PeerId Node} {node : Node} (hnode : nodes.get? p = some node)
    (hstands : node.Stands limit) {userId : String} (huser : userId ≠ "") {r : Record}
    {key : EnvelopeKey} {nonce : List UInt8}
    (hmessage : (NewUser.format.octets (.sealing userId r key nonce)).length ≤ limit)
    (hreceipt : (Receipt.format.octets ⟨userId⟩).length ≤ limit) :
    ∃ nodes', Serves nodes p .newUser (NewUser.format.octets (.sealing userId r key nonce))
      [.userEnrolled userId] (Receipt.format.octets ⟨userId⟩) nodes' := by
  let payload := NewUser.format.octets (.sealing userId r key nonce)
  let own : StreamEnd := ⟨0, false⟩
  rw [← hstands.limit_eq] at hmessage hreceipt
  have hhandler := hstands.builtin (.newUser, .service .newUser) (by decide)
  have hrespond := node.custody.enroll_sealing huser r key nonce
  have hreply : (Service.newUser.respond node.custody payload).reply =
      .ok (Receipt.format.octets ⟨userId⟩) := congrArg Response.reply hrespond
  obtain ⟨told, s, hrun⟩ : ∃ told s, (Program.serveAndClose 0 p own (.service .newUser)).Runs
      (Serving.Answers .newUser own) (.start node payload) told () s :=
    Serving.runs_serveAndClose .newUser own 0 p .newUser node payload
  obtain ⟨⟨htold, -, hwritten⟩, -⟩ := Serving.of_serveAndClose hrun
  rw [Serving.respondOn, if_pos hmessage] at htold hwritten
  have htold' : told = [.userEnrolled userId] :=
    htold.trans (congrArg (fun r : Response => r.event.toList) hrespond)
  have hwritten' : s.written = Receipt.format.octets ⟨userId⟩ := by
    rw [hwritten, hreply, Serving.writtenOf, if_pos hreceipt]
  exact ⟨_, htold' ▸ hwritten' ▸ Serves.intro hnode hhandler hrun⟩

/-- An enrolment with a node that has the built-in handlers can be accepted, if the message and the
receipt are within the limit. -/
theorem runs_enroll {node : Node} (hnode : net.nodes.get? p = some node) (hstands : node.Stands limit)
    {id : StreamId} (hfresh : net.conduits.get? id = none) {userId : String} (huser : userId ≠ "")
    {r : Record} {key : EnvelopeKey} {nonce : List UInt8}
    (hmessage : (NewUser.format.octets (.sealing userId r key nonce)).length ≤ limit)
    (hreceipt : (Receipt.format.octets ⟨userId⟩).length ≤ limit) (n : NodeId) (a : Address) :
    ∃ net', (Program.enroll n (.listed [a]) (.sealing userId r key nonce)).Runs Answers net
      [(p, .userEnrolled userId)] (.ok p) net' := by
  let c : Connection := ⟨p, 0, a⟩
  obtain ⟨nodes, hserves⟩ := serves_sealing hnode hstands huser hmessage hreceipt
  have hdecode : ProtocolId.newUser.decode Receipt.format (Receipt.format.octets ⟨userId⟩) =
      .ok ⟨userId⟩ := ProtocolId.decode_octets .newUser (Receipt.keeps (depthLimit - 1) ⟨userId⟩)
  obtain ⟨conduits, hrequest⟩ := runs_request (c := c) hserves hfresh hmessage hreceipt hdecode n
  have hdial : (Program.query (.dial n a none)).Runs Answers net [] (.ok c) net :=
    .query (answers_at_once (.dialed net n a none (.ok c)))
  have haccepted : (Program.done (acceptanceOf userId p ⟨userId⟩)).Runs Answers ⟨nodes, conduits⟩ []
      (.ok p) ⟨nodes, conduits⟩ := by
    rw [acceptanceOf, if_pos rfl]
    exact .done _ _
  have hoffer : (Program.offerPeer n (.sealing userId r key nonce) a).Runs Answers net
      [(p, .userEnrolled userId)] (.ok p) ⟨nodes, conduits⟩ :=
    hdial.andThen (hrequest.andThen haccepted)
  exact ⟨⟨nodes, conduits⟩, Program.Runs.bind hoffer (.done (Except.ok p) _)⟩

/-- A user of age is enrolled, and the node that took the record in says so of the user. -/
theorem answers_after_enroll_of_age :
    let r : Record := [("age", .number (.natural 30))]
    let q : VerifyRequest := ⟨"q", "u", ⟨none, [⟨"age", .greater, .number (.natural 17)⟩], []⟩⟩
    ∃ (key : EnvelopeKey) (nonce : List UInt8) (net net' : Network) (p : PeerId),
      (Program.enroll 0 (.listed [default]) (.sealing "u" r key nonce)).Runs Answers net
        [(p, .userEnrolled "u")] (.ok p) net' ∧
      ∃ node reply, net'.nodes.get? p = some node ∧
        node.Replies .verify (VerifyRequest.format.octets q) reply ∧
        ProtocolId.verify.decode VerifyResponse.format reply = .ok ⟨"q", .eligible⟩ := by
  intro r q
  let key : EnvelopeKey := ⟨List.replicate EnvelopeKey.size 0, rfl⟩
  let nonce : List UInt8 := List.replicate Envelope.nonceSize 0
  let p : PeerId := ⟨[0]⟩
  have hbound (a b c d : Nat) : ∃ limit, a ≤ limit ∧ b ≤ limit ∧ c ≤ limit ∧ d ≤ limit :=
    ⟨a + b + c + d, by omega, by omega, by omega, by omega⟩
  obtain ⟨limit, hmessage, hreceipt, hrequest, hresponse⟩ := hbound
    (NewUser.format.octets (.sealing "u" r key nonce)).length (Receipt.format.octets ⟨"u"⟩).length
    (VerifyRequest.format.octets q).length (VerifyResponse.format.octets ⟨"q", .eligible⟩).length
  let host : Node := { (default : Node) with
    network := { maxMessageBytes := limit }
    handlers := (Handlers.registerAll ∅ Handlers.builtin).2
    custody := .empty }
  let net : Network := ⟨(∅ : Table PeerId Node).insert p host, ∅⟩
  have hhost : net.nodes.get? p = some host := by rw [Table.get?_insert, if_pos rfl]
  have hstands : host.Stands limit := ⟨Handlers.get?_builtin, rfl⟩
  have hrecord : (Value.object r).Legible depthLimit := by
    refine .object (List.pairwise_singleton _ _) fun m hm => ?_
    obtain rfl := List.mem_singleton.1 hm
    exact .natural 30
  have hcriteria : q.criteria.Legible (depthLimit - 4) := by
    intro rule hrule
    obtain rfl := List.mem_singleton.1 hrule
    exact .natural 17
  have hfresh : net.conduits.get? 0 = none := rfl
  obtain ⟨net', henroll⟩ := runs_enroll hhost hstands hfresh (by decide) hmessage hreceipt 0 default
  obtain ⟨before, after, hes, hlater⟩ := answers_after_enroll hhost hstands rfl (.refl net)
    (by decide) hrecord rfl henroll
  have hafter : after = [] := by
    have hlength := congrArg List.length hes
    simp only [List.length_append, List.length_cons, List.length_nil] at hlength
    exact List.length_eq_zero_iff.1 (by omega)
  obtain ⟨node, hnode, hanswers⟩ := hlater [] net' (.refl net')
  have hquiet : (p, Event.userEnrolled "u") ∉ after ++ [] := by
    rw [hafter]
    exact List.not_mem_nil
  have hevaluate : q.criteria.evaluate r = true := rfl
  have hanswer := (hanswers q hcriteria).1 rfl hquiet
  rw [if_pos hevaluate] at hanswer
  obtain ⟨reply, hreply, hdecode⟩ := hanswer hrequest hresponse
  exact ⟨key, nonce, net, net', p, henroll, node, reply, hnode, hreply, hdecode⟩

end Network

end SealedCustody
